/-!
# Binary floating-point numbers

Durations are binary64 numbers. A finite magnitude is `significand * 2 ^ exponent` in its one
canonical form, so equal numbers are equal terms, and every operation computes the exact
result and rounds once, to the nearest number and to an even significand on a tie.
-/

set_option autoImplicit false

namespace QueryTelemetry

/-- The nearest integer to a quotient; a tie goes to the even neighbour. -/
def divEven (n d : Nat) : Nat :=
  if d < 2 * (n % d) ∨ (2 * (n % d) = d ∧ n / d % 2 = 1) then n / d + 1 else n / d

theorem div_even_mul (m d : Nat) (h : 0 < d) : divEven (m * d) d = m := by
  simp only [divEven, Nat.mul_mod_left, Nat.mul_div_left m h]
  rw [if_neg (by omega)]

abbrev Canonical (significand : Nat) (exponent : Int) : Prop :=
  significand < Nat.pow 2 53 ∧ -1074 ≤ exponent ∧ exponent ≤ 971 ∧
    (Nat.pow 2 52 ≤ significand ∨ exponent = -1074)

structure Magnitude where
  significand : Nat
  exponent : Int
  canonical : Canonical significand exponent
  deriving DecidableEq

inductive Binary64 where
  | nan
  | infinite (negative : Bool)
  | finite (negative : Bool) (magnitude : Magnitude)
  deriving DecidableEq

namespace Magnitude

def zero : Magnitude := ⟨0, -1074, by decide⟩

def quotient (x : Magnitude) : Nat × Nat :=
  if 0 ≤ x.exponent then (x.significand * Nat.pow 2 x.exponent.toNat, 1)
  else (x.significand, Nat.pow 2 (-x.exponent).toNat)

end Magnitude

namespace Binary64

def zero (negative : Bool) : Binary64 := .finite negative .zero

instance : Inhabited Binary64 := ⟨zero false⟩

/-- A significand that rounding carried to `2 ^ 53` moves up one binade; past the last binade
lies infinity. -/
def pack (negative : Bool) (significand : Nat) (exponent : Int) : Binary64 :=
  if h : Canonical significand exponent then .finite negative ⟨significand, exponent, h⟩
  else if h : Canonical (significand / 2) (exponent + 1) then
    .finite negative ⟨significand / 2, exponent + 1, h⟩
  else .infinite negative

def reaches (num den : Nat) (e : Int) : Bool :=
  if 0 ≤ e then den * Nat.pow 2 e.toNat ≤ num else den ≤ num * Nat.pow 2 (-e).toNat

def unitExponent (num den : Nat) : Int :=
  let e : Int := (num.log2 : Int) - (den.log2 : Int)
  max ((if reaches num den e then e else e - 1) - 52) (-1074)

def round (negative : Bool) (num den : Nat) : Binary64 :=
  if num = 0 then zero negative
  else
    let e := unitExponent num den
    if 0 ≤ e then pack negative (divEven num (den * Nat.pow 2 e.toNat)) e
    else pack negative (divEven (num * Nat.pow 2 (-e).toNat) den) e

def signed (negative : Bool) (n : Nat) : Int := if negative then -(n : Int) else n

def aligned (s : Bool) (x : Magnitude) (t : Bool) (y : Magnitude) : Int × Int × Int :=
  let e := min x.exponent y.exponent
  (signed s (x.significand * Nat.pow 2 (x.exponent - e).toNat),
    signed t (y.significand * Nat.pow 2 (y.exponent - e).toNat), e)

/-- Opposite numbers add to a positive zero; only two negative zeros keep the sign. -/
def add : Binary64 → Binary64 → Binary64
  | .nan, _ => .nan
  | _, .nan => .nan
  | .infinite s, .infinite t => if s = t then .infinite s else .nan
  | .infinite s, .finite _ _ => .infinite s
  | .finite _ _, .infinite t => .infinite t
  | .finite s x, .finite t y =>
    let (a, b, e) := aligned s x t y
    if a + b = 0 then zero (s && t)
    else if 0 ≤ e then round (a + b < 0) ((a + b).natAbs * Nat.pow 2 e.toNat) 1
    else round (a + b < 0) (a + b).natAbs (Nat.pow 2 (-e).toNat)

def neg : Binary64 → Binary64
  | .nan => .nan
  | .infinite s => .infinite (!s)
  | .finite s x => .finite (!s) x

def sub (x y : Binary64) : Binary64 := x.add y.neg

/-- Nothing is below or above `nan`; the two zeros are equal. -/
def less : Binary64 → Binary64 → Bool
  | .nan, _ => false
  | _, .nan => false
  | .infinite s, .infinite t => s && !t
  | .infinite s, .finite _ _ => s
  | .finite _ _, .infinite t => !t
  | .finite s x, .finite t y => let (a, b, _) := aligned s x t y; a < b

def larger (x y : Binary64) : Binary64 := if x.less y then y else x

def toInt? : Binary64 → Option Int
  | .finite s x =>
    let (n, d) := x.quotient
    if n % d = 0 then some (signed s (n / d)) else none
  | _ => none

def truncated? : Binary64 → Option Int
  | .finite s x => let (n, d) := x.quotient; some (signed s (n / d))
  | _ => none

end Binary64

end QueryTelemetry
