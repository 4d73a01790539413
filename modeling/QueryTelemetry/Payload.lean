import QueryTelemetry.Assoc
import QueryTelemetry.Kind
import QueryTelemetry.Number.Decimal
import QueryTelemetry.Number.Integer
import QueryTelemetry.Text.Printable

/-!
# Payloads

What a telemetry source delivers before it is decoded: loose values, which may already hold a
kind. A payload has a text for messages, unless a number in it is too long to be written.
-/

set_option autoImplicit false

namespace QueryTelemetry

inductive Payload where
  | null
  | bool (b : Bool)
  | int (n : Int)
  | float (x : Binary64)
  | str (s : String)
  | list (items : List Payload)
  | mapping (fields : List (String × Payload))
  | kind (k : QueryKind)

namespace Payload
open QueryTelemetry.Text

def typeName : Payload → String
  | .null => "NoneType"
  | .bool _ => "bool"
  | .int _ => "int"
  | .float _ => "float"
  | .str _ => "str"
  | .list _ => "list"
  | .mapping _ => "dict"
  | .kind _ => "QueryKind"

def boolText (b : Bool) : List Char := if b then "True".toList else "False".toList

def commaSeparated : List (List Char) → List Char
  | [] => []
  | [t] => t
  | t :: r => t ++ ',' :: ' ' :: commaSeparated r

mutual

def inner? : Payload → Option (List Char)
  | .null => some "None".toList
  | .bool b => some (boolText b)
  | .int n => Integer.chars? n
  | .float x => some x.chars
  | .str s => some (quoted s.toList)
  | .list items => (innerItems? items).map fun ts => '[' :: commaSeparated ts ++ [']']
  | .mapping fields => (innerFields? fields).map fun ts => '\x7b' :: commaSeparated ts ++ ['\x7d']
  | .kind k => some ("<QueryKind.".toList ++ k.name.toList ++ ": ".toList ++
      Nat.toDigits 10 k.ordinal ++ ">".toList)

def innerItems? : List Payload → Option (List (List Char))
  | [] => some []
  | p :: r => do return (← inner? p) :: (← innerItems? r)

def innerFields? : List (String × Payload) → Option (List (List Char))
  | [] => some []
  | (k, p) :: r => do
    let t ← inner? p
    return (quoted k.toList ++ ':' :: ' ' :: t) :: (← innerFields? r)

end

def shown? (p : Payload) : Option String := (inner? p).map String.ofList

def text? : Payload → Option String
  | .str s => some s
  | .kind k => some ("QueryKind." ++ k.name)
  | p => p.shown?

end Payload

end QueryTelemetry
