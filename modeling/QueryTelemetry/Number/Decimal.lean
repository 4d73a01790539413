import QueryTelemetry.Number.Binary64

/-!
# Decimal text of binary numbers

A decimal `digits * 10 ^ exponent` is read as the nearest binary64 number. In the other
direction a number is written with the fewest digits that read back as it, of these the
nearest, of two equally near the even; or with a fixed count of places, rounded from its
exact value.
-/

set_option autoImplicit false

namespace QueryTelemetry

structure Decimal where
  digits : Nat
  exponent : Int
  deriving DecidableEq, Repr

namespace Decimal

def digitCount (n : Nat) : Nat := (Nat.toDigits 10 n).length

def quotient (x : Decimal) : Nat × Nat :=
  if 0 ≤ x.exponent then (x.digits * Nat.pow 10 x.exponent.toNat, 1)
  else (x.digits, Nat.pow 10 (-x.exponent).toNat)

/-- Past 310 digits before the point all is infinite, and past 330 zeros after it all is zero,
so no power of ten beyond these is computed. -/
def toBinary64 (negative : Bool) (x : Decimal) : Binary64 :=
  let size : Int := (digitCount x.digits : Int) + x.exponent
  if x.digits = 0 then .zero negative
  else if 310 < size then .infinite negative
  else if size < -330 then .zero negative
  else let (n, d) := x.quotient; .round negative n d

end Decimal

namespace Magnitude
open Decimal

/-- All digits of the number: halves become tenths times five. -/
def exact (x : Magnitude) : Decimal :=
  if 0 ≤ x.exponent then ⟨x.significand * Nat.pow 2 x.exponent.toNat, 0⟩
  else ⟨x.significand * Nat.pow 5 (-x.exponent).toNat, x.exponent⟩

def leadingExponent (n d : Nat) : Int :=
  if d ≤ n then (digitCount (n / d) : Int) - 1
  else
    let k := digitCount (d / n)
    if d ≤ n * Nat.pow 10 (k - 1) then -((k : Int) - 1) else -(k : Int)

def readsBack (x : Magnitude) (y : Decimal) : Bool := y.toBinary64 false == .finite false x

/-- The neighbours of the number on the grid `10 ^ k`: if a point of the grid reads back as
the number, so does one of them. -/
def onGrid? (x : Magnitude) (k : Int) : Option Decimal :=
  let (n, d) := x.quotient
  let (n, d) := if 0 ≤ k then (n, d * Nat.pow 10 k.toNat) else (n * Nat.pow 10 (-k).toNat, d)
  let below : Decimal := ⟨n / d, k⟩
  let above : Decimal := ⟨n / d + 1, k⟩
  match x.readsBack below, x.readsBack above with
  | true, false => some below
  | false, true => some above
  | true, true => some ⟨divEven n d, k⟩
  | false, false => none

/-- The fewest digits that read back; seventeen always do. -/
def shortest (x : Magnitude) : Decimal :=
  let (n, d) := x.quotient
  let lead := leadingExponent n d
  ((List.range 17).findSome? fun i : Nat => x.onGrid? (lead - (i : Int))).getD x.exact

end Magnitude

def Decimal.layout (x : Decimal) : List Char × Int :=
  let ds := Nat.toDigits 10 x.digits
  ((ds.reverse.dropWhile (· = '0')).reverse, (ds.length : Int) + x.exponent)

def zeros (n : Nat) : List Char := List.replicate n '0'

def exponentText (e : Int) : List Char :=
  let ds := Nat.toDigits 10 e.natAbs
  'e' :: (if e < 0 then '-' else '+') :: (zeros (2 - ds.length) ++ ds)

/-- Positional while the leading digit stands for 10⁻⁴ to 10¹⁵, else with an exponent. -/
def Decimal.chars (x : Decimal) : List Char :=
  let (ds, point) := x.layout
  if ds = [] then ['0', '.', '0']
  else if point ≤ -4 ∨ 16 < point then
    match ds with
    | d :: r => d :: (if r = [] then [] else '.' :: r) ++ exponentText (point - 1)
    | [] => []
  else if point ≤ 0 then '0' :: '.' :: (zeros (-point).toNat ++ ds)
  else
    let p := point.toNat
    if ds.length ≤ p then ds ++ zeros (p - ds.length) ++ ['.', '0']
    else ds.take p ++ '.' :: ds.drop p

namespace Binary64

def sign (negative : Bool) : List Char := if negative then ['-'] else []

def chars : Binary64 → List Char
  | .nan => "nan".toList
  | .infinite s => sign s ++ "inf".toList
  | .finite s x => sign s ++ (if x.significand = 0 then ['0', '.', '0'] else x.shortest.chars)

def text (x : Binary64) : String := String.ofList x.chars

/-- A fixed count of places; a tie goes to the even digit, and a rounded-off negative number
keeps its sign. -/
def fixed (places : Nat) : Binary64 → String
  | .nan => "nan"
  | .infinite s => String.ofList (sign s ++ "inf".toList)
  | .finite s x =>
    let (n, d) := x.quotient
    let ds := Nat.toDigits 10 (divEven (n * Nat.pow 10 places) d)
    let ds := zeros (places + 1 - ds.length) ++ ds
    String.ofList (sign s ++ ds.take (ds.length - places) ++ '.' :: ds.drop (ds.length - places))

end Binary64

end QueryTelemetry
