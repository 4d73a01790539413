import QueryTelemetry.Number.Decimal

/-!
# Scanning a number

The number at the front of a text: an optional minus, digits without a needless leading zero,
then a fraction and an exponent if they are complete. A mark that begins an incomplete part is
left in the rest.
-/

set_option autoImplicit false

namespace QueryTelemetry

structure Numeral where
  negative : Bool
  whole : List Char
  fraction : List Char
  exponent : Option Int
  deriving DecidableEq

namespace Numeral

def isDigit (c : Char) : Bool := '0' ≤ c && c ≤ '9'

def spanDigits (cs : List Char) : List Char × List Char :=
  (cs.takeWhile isDigit, cs.dropWhile isDigit)

def toNat (ds : List Char) : Nat := Nat.ofDigitChars 10 ds 0

def scanWhole? : List Char → Option (List Char × List Char)
  | '0' :: r => some (['0'], r)
  | cs => match spanDigits cs with
    | ([], _) => none
    | found => some found

def scanFraction : List Char → List Char × List Char
  | '.' :: r => match spanDigits r with
    | ([], _) => ([], '.' :: r)
    | found => found
  | cs => ([], cs)

def scanExponentDigits? (negative : Bool) (cs : List Char) : Option (Int × List Char) :=
  match spanDigits cs with
  | ([], _) => none
  | (ds, r) => some (if negative then -(toNat ds : Int) else toNat ds, r)

def scanExponent? : List Char → Option (Int × List Char)
  | m :: r =>
    if m = 'e' ∨ m = 'E' then
      match r with
      | '-' :: r => scanExponentDigits? true r
      | '+' :: r => scanExponentDigits? false r
      | r => scanExponentDigits? false r
    else none
  | [] => none

def scanUnsigned? (negative : Bool) (cs : List Char) : Option (Numeral × List Char) :=
  (scanWhole? cs).map fun (whole, r) =>
    let (fraction, r) := scanFraction r
    match scanExponent? r with
    | some (e, r) => (⟨negative, whole, fraction, some e⟩, r)
    | none => (⟨negative, whole, fraction, none⟩, r)

def scan? : List Char → Option (Numeral × List Char)
  | '-' :: r => scanUnsigned? true r
  | cs => scanUnsigned? false cs

def isInteger (x : Numeral) : Bool := x.fraction.isEmpty && x.exponent.isNone

def toInt (x : Numeral) : Int := if x.negative then -(toNat x.whole : Int) else toNat x.whole

def toBinary64 (x : Numeral) : Binary64 :=
  Decimal.toBinary64 x.negative
    ⟨toNat (x.whole ++ x.fraction), x.exponent.getD 0 - (x.fraction.length : Int)⟩

end Numeral

def Binary64.read? (s : String) : Option Binary64 :=
  match s with
  | "nan" => some .nan
  | "inf" => some (.infinite false)
  | "-inf" => some (.infinite true)
  | _ => match Numeral.scan? s.toList with
    | some (x, []) => some x.toBinary64
    | _ => none

end QueryTelemetry
