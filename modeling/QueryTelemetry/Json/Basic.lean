import QueryTelemetry.Assoc
import QueryTelemetry.Number.Decimal
import QueryTelemetry.Number.Integer
import QueryTelemetry.Text.Printable

/-!
# Documents

The values of a report or manifest document. A document escapes text by UTF-16 units, and a unit of
a surrogate pair may stand alone there, so its texts are lists of units; every string has one. The
members of an object keep their order. Documents are printed in ASCII: with every member on a line
of its own, or without blanks and with sorted members. An integer past the digit limit cannot be
printed; printing by lines then stops in front of it and leaves what was printed so far.
-/

set_option autoImplicit false

namespace QueryTelemetry

abbrev Utf16 := List UInt16

namespace Utf16

def ofChar (c : Char) : Utf16 :=
  if c.toNat < 0x10000 then [c.toNat.toUInt16]
  else
    let n := c.toNat - 0x10000
    [(0xD800 + n / 0x400).toUInt16, (0xDC00 + n % 0x400).toUInt16]

def ofString (s : String) : Utf16 := s.toList.flatMap ofChar

def isHigh (u : UInt16) : Bool := 0xD800 ≤ u.toNat && u.toNat < 0xDC00

def isLow (u : UInt16) : Bool := 0xDC00 ≤ u.toNat && u.toNat < 0xE000

def codePoints : Utf16 → List Nat
  | h :: l :: r =>
    if isHigh h && isLow l then
      (0x10000 + (h.toNat - 0xD800) * 0x400 + (l.toNat - 0xDC00)) :: codePoints r
    else h.toNat :: codePoints (l :: r)
  | [u] => [u.toNat]
  | [] => []

def isWhole (s : Utf16) : Bool := (codePoints s).all fun n => decide n.isValidChar

/-- By code points, which is not the order of the units. -/
def le (a b : Utf16) : Bool := !(codePoints b).lex (codePoints a) (· < ·)

def occurs (part : Utf16) : Utf16 → Bool
  | [] => part.isEmpty
  | u :: r => part.isPrefixOf (u :: r) || occurs part r

end Utf16

inductive Json where
  | null
  | bool (b : Bool)
  | int (n : Int)
  | float (x : Binary64)
  | str (s : Utf16)
  | arr (items : List Json)
  | obj (members : List (Utf16 × Json))

namespace Json

def text (s : String) : Json := .str (Utf16.ofString s)

def ofPairs (members : List (String × Json)) : Json :=
  .obj (members.map fun p => (Utf16.ofString p.1, p.2))

def size? : Json → Option Nat
  | .str s => some (Utf16.codePoints s).length
  | .arr items => some items.length
  | .obj members => some members.length
  | _ => none

end Json

end QueryTelemetry

namespace QueryTelemetry.Json
open QueryTelemetry.Text

def isPlain (u : UInt16) : Bool := 0x20 ≤ u.toNat && u.toNat ≤ 0x7E

def escapeUnit (u : UInt16) : List Char :=
  match u.toNat with
  | 0x22 => ['\\', doubleQuote]
  | 0x5C => ['\\', '\\']
  | 0x0A => ['\\', 'n']
  | 0x0D => ['\\', 'r']
  | 0x09 => ['\\', 't']
  | 0x08 => ['\\', 'b']
  | 0x0C => ['\\', 'f']
  | n => if isPlain u then [Char.ofNat n] else '\\' :: 'u' :: hex 4 n

def stringChars (s : Utf16) : List Char :=
  doubleQuote :: s.flatMap escapeUnit ++ [doubleQuote]

def floatChars : Binary64 → List Char
  | .nan => "NaN".toList
  | .infinite s => Binary64.sign s ++ "Infinity".toList
  | x => x.chars

def boolChars (b : Bool) : List Char := if b then "true".toList else "false".toList

structure Printed where
  chars : List Char
  complete : Bool

namespace Printed

def done (cs : List Char) : Printed := ⟨cs, true⟩

def append (a b : Printed) : Printed :=
  if a.complete then ⟨a.chars ++ b.chars, b.complete⟩ else a

def after (cs : List Char) (rest : Printed) : Printed := ⟨cs ++ rest.chars, rest.complete⟩

def after? (cs : Option (List Char)) (rest : Printed) : Printed :=
  match cs with
  | some cs => after cs rest
  | none => ⟨[], false⟩

def text (p : Printed) : String := String.ofList p.chars

theorem append_assoc (a b c : Printed) : (a.append b).append c = a.append (b.append c) := by
  cases ha : a.complete <;> cases hb : b.complete <;> simp [append, ha, hb]

theorem after_append (cs : List Char) (a b : Printed) :
    (after cs a).append b = after cs (a.append b) := by
  cases ha : a.complete <;> simp [append, after, ha]

theorem after_done (cs : List Char) (a : Printed) : (after cs (done [])).append a = after cs a := by
  simp [append, after, done]

theorem after_maybe_append (cs : Option (List Char)) (a b : Printed) :
    (after? cs a).append b = after? cs (a.append b) := by
  cases cs with
  | none => rfl
  | some cs => exact after_append cs a b

end Printed

def newline (depth : Nat) : List Char := '\n' :: List.replicate (2 * depth) ' '

mutual

def lines (depth : Nat) : Json → Printed → Printed
  | .null, k => .after "null".toList k
  | .bool b, k => .after (boolChars b) k
  | .int n, k => .after? (Integer.chars? n) k
  | .float x, k => .after (floatChars x) k
  | .str s, k => .after (stringChars s) k
  | .arr [], k => .after ['[', ']'] k
  | .arr items, k =>
    itemLines (depth + 1) ('[' :: newline (depth + 1)) items (.after (newline depth ++ [']']) k)
  | .obj [], k => .after ['\x7b', '\x7d'] k
  | .obj members, k =>
    memberLines (depth + 1) ('\x7b' :: newline (depth + 1)) members
      (.after (newline depth ++ ['\x7d']) k)

/-- An integer is printed together with the separator in front of it. -/
def itemLines (depth : Nat) (separator : List Char) : List Json → Printed → Printed
  | [], k => k
  | .int n :: r, k =>
    .after? ((Integer.chars? n).map (separator ++ ·)) (itemLines depth (',' :: newline depth) r k)
  | v :: r, k =>
    .after separator (lines depth v (itemLines depth (',' :: newline depth) r k))

def memberLines (depth : Nat) (separator : List Char) :
    List (Utf16 × Json) → Printed → Printed
  | [], k => k
  | (key, v) :: r, k =>
    .after (separator ++ stringChars key ++ [':', ' '])
      (lines depth v (memberLines depth (',' :: newline depth) r k))

end

def pretty (v : Json) : Printed := lines 0 v (.done [])

def commas : List (List Char) → List Char
  | [] => []
  | [t] => t
  | t :: r => t ++ ',' :: commas r

def sortMembers {α : Type} (members : List (Utf16 × α)) : List (Utf16 × α) :=
  members.mergeSort fun a b => Utf16.le a.1 b.1

mutual

def compact? : Json → Option (List Char)
  | .null => some "null".toList
  | .bool b => some (boolChars b)
  | .int n => Integer.chars? n
  | .float x => some (floatChars x)
  | .str s => some (stringChars s)
  | .arr items => (compactItems? items).map fun ts => '[' :: commas ts ++ [']']
  | .obj members => (compactMembers? members).map fun ts =>
      '\x7b' :: commas ((sortMembers ts).map fun p => stringChars p.1 ++ ':' :: p.2) ++ ['\x7d']

def compactItems? : List Json → Option (List (List Char))
  | [] => some []
  | v :: r => do return (← compact? v) :: (← compactItems? r)

def compactMembers? : List (Utf16 × Json) → Option (List (Utf16 × List Char))
  | [] => some []
  | (k, v) :: r => do
    let t ← compact? v
    return (k, t) :: (← compactMembers? r)

end

mutual

/-- What follows a value has no part in how it is printed. -/
theorem lines_append (depth : Nat) (v : Json) (k : Printed) :
    lines depth v k = (lines depth v (.done [])).append k := by
  match v with
  | .null | .bool _ | .float _ | .str _ | .arr [] | .obj [] =>
    simp only [lines, Printed.after_done]
  | .int n => simp only [lines, Printed.after_maybe_append]; rfl
  | .arr (v :: r) =>
    simp only [lines]
    rw [item_lines_append, item_lines_append _ _ _ (.after _ (.done [])), Printed.append_assoc,
      Printed.after_done]
  | .obj (p :: r) =>
    simp only [lines]
    rw [member_lines_append, member_lines_append _ _ _ (.after _ (.done [])),
      Printed.append_assoc, Printed.after_done]

theorem item_lines_append (depth : Nat) (separator : List Char) (vs : List Json) (k : Printed) :
    itemLines depth separator vs k = (itemLines depth separator vs (.done [])).append k := by
  match vs with
  | [] => rfl
  | .int n :: r =>
    simp only [itemLines]
    rw [item_lines_append, Printed.after_maybe_append]
  | .null :: r | .bool _ :: r | .float _ :: r | .str _ :: r | .arr _ :: r | .obj _ :: r =>
    simp only [itemLines]
    rw [lines_append, item_lines_append, lines_append _ _ (itemLines _ _ _ (.done [])),
      Printed.after_append, Printed.append_assoc]

theorem member_lines_append (depth : Nat) (separator : List Char) (ms : List (Utf16 × Json))
    (k : Printed) :
    memberLines depth separator ms k = (memberLines depth separator ms (.done [])).append k := by
  match ms with
  | [] => rfl
  | (key, v) :: r =>
    simp only [memberLines]
    rw [lines_append, member_lines_append, lines_append _ _ (memberLines _ _ _ (.done [])),
      Printed.after_append, Printed.append_assoc]

end

end QueryTelemetry.Json
