import QueryTelemetry.Text.Characters

/-!
# Integer text

An integer is read from an optional sign and decimal digits of any script, single underscores
allowed between two digits. Reading and writing stop at 4300 digits: longer text is no integer,
and a longer integer has no text.
-/

set_option autoImplicit false

namespace QueryTelemetry.Integer
open QueryTelemetry.Text

def digitLimit : Nat := 4300

def ceiling : Nat := Nat.pow 10 digitLimit

def digits? : List Char → Option (List Nat)
  | [] => none
  | [c] => (digitValue? c).map ([·])
  | c :: '_' :: r => (digitValue? c).bind fun d => (digits? r).map (d :: ·)
  | c :: r => (digitValue? c).bind fun d => (digits? r).map (d :: ·)

def ofDigits (ds : List Nat) : Nat := ds.foldl (fun n d => 10 * n + d) 0

/-- Leading zeros count towards the limit, underscores do not. -/
def magnitude? (cs : List Char) : Option Nat :=
  (digits? cs).bind fun ds => if ds.length ≤ digitLimit then some (ofDigits ds) else none

def read? (s : String) : Option Int :=
  match trim isWhiteSpace s.toList with
  | '-' :: r => (magnitude? r).map fun n => -(n : Int)
  | '+' :: r => (magnitude? r).map Int.ofNat
  | r => (magnitude? r).map Int.ofNat

def signed (n : Int) (cs : List Char) : List Char := if n < 0 then '-' :: cs else cs

def chars? (n : Int) : Option (List Char) :=
  if n.natAbs < ceiling then some (signed n (Nat.toDigits 10 n.natAbs)) else none

def text? (n : Int) : Option String := (chars? n).map String.ofList

def limitText : String := "Exceeds the limit (4300 digits) for integer string conversion"

def adviceText : String := "; use sys.set_int_max_str_digits() to increase the limit"

def unwritableText : String := limitText ++ adviceText

def unreadableText (digits : Nat) : String :=
  limitText ++ ": value has " ++ toString digits ++ " digits" ++ adviceText

theorem chars_none_iff (n : Int) : chars? n = none ↔ ceiling ≤ n.natAbs := by
  unfold chars?; split <;> simp <;> omega

theorem text_eq (n : Int) :
    text? n = if n.natAbs < ceiling then some (toString n) else none := by
  rw [text?, chars?]
  split
  · rw [Option.map_some]
    congr 1
    cases n with
    | ofNat m => rfl
    | negSucc m =>
      have hdigits : toString (Int.negSucc m) = "-" ++ (m + 1).repr := rfl
      rw [signed, if_pos (Int.negSucc_lt_zero m), hdigits]
      apply String.toList_injective
      simp [Nat.repr_eq_ofList_toDigits]
  · rfl

end QueryTelemetry.Integer
