import QueryTelemetry.Json.Basic
import QueryTelemetry.Number.Integer
import QueryTelemetry.Number.Scan
import QueryTelemetry.Text.Characters

/-!
# Reading documents

A document is one value with blanks around it. Of the members with one name the last counts,
at the place of the first. Text that is no document is corrupt, unless an integer past the
digit limit, or a nesting past the room that there is for it, stops the reader first.
-/

set_option autoImplicit false

namespace QueryTelemetry.Json

inductive ParseError where
  | corrupt
  | longInteger (digits : Nat)
  | tooDeep
  deriving DecidableEq

abbrev Reading := Except ParseError

def isSpace (c : Char) : Bool := c = ' ' || c = '\t' || c = '\n' || c = '\r'

def skip (cs : List Char) : List Char := cs.dropWhile isSpace

def hexUnit? (a b c d : Char) : Option UInt16 := do
  let a ← Text.hexValue? a
  let b ← Text.hexValue? b
  let c ← Text.hexValue? c
  let d ← Text.hexValue? d
  return (((a * 16 + b) * 16 + c) * 16 + d).toUInt16

def shortEscape? : Char → Option UInt16
  | '"' => some 0x22
  | '\\' => some 0x5C
  | '/' => some 0x2F
  | 'b' => some 0x08
  | 'f' => some 0x0C
  | 'n' => some 0x0A
  | 'r' => some 0x0D
  | 't' => some 0x09
  | _ => none

def stringBody? : List Char → Option (Utf16 × List Char)
  | [] => none
  | '"' :: r => some ([], r)
  | '\\' :: 'u' :: a :: b :: c :: d :: r =>
    (hexUnit? a b c d).bind fun u => (stringBody? r).map fun p => (u :: p.1, p.2)
  | '\\' :: e :: r =>
    (shortEscape? e).bind fun u => (stringBody? r).map fun p => (u :: p.1, p.2)
  | c :: r =>
    if c.toNat < 0x20 ∨ c = '\\' then none
    else (stringBody? r).map fun p => (Utf16.ofChar c ++ p.1, p.2)

def string (cs : List Char) : Reading (Utf16 × List Char) :=
  match stringBody? cs with
  | some p => .ok p
  | none => .error .corrupt

def number (cs : List Char) : Reading (Json × List Char) :=
  match Numeral.scan? cs with
  | none => .error .corrupt
  | some (x, r) =>
    if !x.isInteger then .ok (.float x.toBinary64, r)
    else if x.whole.length ≤ Integer.digitLimit then .ok (.int x.toInt, r)
    else .error (.longInteger x.whole.length)

mutual

/-- Every step of the reader consumes a character, so the length of the text is fuel enough.
An array or object takes one from the room for nesting. -/
def value : Nat → Nat → List Char → Reading (Json × List Char)
  | 0, _, _ => .error .corrupt
  | _ + 1, _, '"' :: r => do
    let (s, r) ← string r
    return (.str s, r)
  | _ + 1, 0, '[' :: _ => .error .tooDeep
  | _ + 1, 0, '\x7b' :: _ => .error .tooDeep
  | fuel + 1, room + 1, '[' :: r =>
    match skip r with
    | ']' :: r => .ok (.arr [], r)
    | r => do
      let (vs, r) ← items fuel room r
      return (.arr vs, r)
  | fuel + 1, room + 1, '\x7b' :: r =>
    match skip r with
    | '\x7d' :: r => .ok (.obj [], r)
    | r => do
      let (ms, r) ← members fuel room r
      return (.obj (Assoc.ofPairs ms), r)
  | _ + 1, _, 'n' :: 'u' :: 'l' :: 'l' :: r => .ok (.null, r)
  | _ + 1, _, 't' :: 'r' :: 'u' :: 'e' :: r => .ok (.bool true, r)
  | _ + 1, _, 'f' :: 'a' :: 'l' :: 's' :: 'e' :: r => .ok (.bool false, r)
  | _ + 1, _, 'N' :: 'a' :: 'N' :: r => .ok (.float .nan, r)
  | _ + 1, _, 'I' :: 'n' :: 'f' :: 'i' :: 'n' :: 'i' :: 't' :: 'y' :: r =>
    .ok (.float (.infinite false), r)
  | _ + 1, _, '-' :: 'I' :: 'n' :: 'f' :: 'i' :: 'n' :: 'i' :: 't' :: 'y' :: r =>
    .ok (.float (.infinite true), r)
  | _ + 1, _, cs => number cs

def items : Nat → Nat → List Char → Reading (List Json × List Char)
  | 0, _, _ => .error .corrupt
  | fuel + 1, room, cs => do
    let (v, r) ← value fuel room cs
    match skip r with
    | ']' :: r => return ([v], r)
    | ',' :: r =>
      let (vs, r) ← items fuel room (skip r)
      return (v :: vs, r)
    | _ => .error .corrupt

def members : Nat → Nat → List Char → Reading (List (Utf16 × Json) × List Char)
  | 0, _, _ => .error .corrupt
  | fuel + 1, room, '"' :: cs => do
    let (k, r) ← string cs
    match skip r with
    | ':' :: r =>
      let (v, r) ← value fuel room (skip r)
      match skip r with
      | '\x7d' :: r => return ([(k, v)], r)
      | ',' :: r =>
        let (ms, r) ← members fuel room (skip r)
        return ((k, v) :: ms, r)
      | _ => .error .corrupt
    | _ => .error .corrupt
  | _ + 1, _, _ => .error .corrupt

end

/-- A byte order mark is no blank, so text that starts with one is corrupt. -/
def parse (room : Nat) (text : String) : Reading Json := do
  let cs := text.toList
  let (v, r) ← value (cs.length + 1) room (skip cs)
  match skip r with
  | [] => return v
  | _ => .error .corrupt

end QueryTelemetry.Json
