import QueryTelemetry.Json.Basic
import QueryTelemetry.Json.Parser

/-!
# Reading numbers back

The front of a text that was written for a number, in front of text that cannot go on with it.
-/

set_option autoImplicit false

namespace QueryTelemetry

/-- Text that does not go on with a number. -/
def Ends (cs : List Char) : Prop :=
  ∀ c ∈ cs.head?, Numeral.isDigit c = false ∧ c ≠ '.' ∧ c ≠ 'e' ∧ c ≠ 'E'

theorem ends_nil : Ends [] := by
  intro c hc
  cases hc

theorem ends_cons {c : Char} (h : Numeral.isDigit c = false ∧ c ≠ '.' ∧ c ≠ 'e' ∧ c ≠ 'E')
    (cs : List Char) : Ends (c :: cs) := by
  intro d hd
  cases hd
  exact h

structure Digits (ds : List Char) : Prop where
  nonempty : ds ≠ []
  digit : ∀ c ∈ ds, Numeral.isDigit c

structure Whole (ds : List Char) : Prop extends Digits ds where
  lead : ds = ['0'] ∨ ds.head? ≠ some '0'

theorem digits_of_nat (n : Nat) : Digits (Nat.toDigits 10 n) where
  nonempty := Nat.toDigits_ne_nil
  digit c hc := by
    have hd := Nat.isDigit_of_mem_toDigits (by decide) (by decide) hc
    simpa [Char.isDigit, Numeral.isDigit, Char.le_def] using hd

theorem lead_of_nat {n : Nat} (h : 0 < n) : (Nat.toDigits 10 n).head? ≠ some '0' := by
  induction n using Nat.strongRecOn with
  | ind n ih =>
    by_cases hn : n < 10
    · have hall : ∀ n < 10, 0 < n → n.digitChar ≠ '0' := by decide
      rw [Nat.toDigits_of_lt_base hn, List.head?_cons]
      exact fun he => hall n hn h (Option.some.inj he)
    · have hlead := ih (n / 10) (by omega) (by omega)
      rw [Nat.toDigits_of_base_le (by decide) (by omega), List.head?_append]
      cases ht : (Nat.toDigits 10 (n / 10)).head? with
      | none => exact absurd (List.head?_eq_none_iff.mp ht) Nat.toDigits_ne_nil
      | some c => rwa [ht] at hlead

theorem whole_of_nat (n : Nat) : Whole (Nat.toDigits 10 n) where
  toDigits := digits_of_nat n
  lead := by
    rcases Nat.eq_zero_or_pos n with rfl | h
    · exact Or.inl (Nat.toDigits_zero 10)
    · exact Or.inr (lead_of_nat h)

namespace Numeral

theorem span_digits {ds r : List Char} (hd : ∀ c ∈ ds, isDigit c)
    (hr : ∀ c ∈ r.head?, isDigit c = false) : spanDigits (ds ++ r) = (ds, r) := by
  have htake : r.takeWhile isDigit = [] := by
    cases r with
    | nil => rfl
    | cons c r => rw [List.takeWhile_cons_of_neg (by simp [hr c rfl])]
  have hdrop : r.dropWhile isDigit = r := by
    cases r with
    | nil => rfl
    | cons c r => rw [List.dropWhile_cons_of_neg (by simp [hr c rfl])]
  rw [spanDigits, List.takeWhile_append_of_pos hd, List.dropWhile_append_of_pos hd, htake, hdrop,
    List.append_nil]

theorem scan_whole {ds r : List Char} (hd : Whole ds) (hr : ∀ c ∈ r.head?, isDigit c = false) :
    scanWhole? (ds ++ r) = some (ds, r) := by
  have hspan := span_digits hd.digit hr
  cases hd.lead with
  | inl hzero =>
    subst hzero
    rfl
  | inr hlead =>
    cases hds : ds with
    | nil => exact absurd hds hd.nonempty
    | cons d t =>
      rw [hds] at hspan hlead
      rw [List.cons_append] at hspan ⊢
      rw [scanWhole?, hspan]
      intro _ hu
      exact hlead (congrArg some (List.cons.inj hu).1)

theorem scan_fraction {ds r : List Char} (hd : Digits ds)
    (hr : ∀ c ∈ r.head?, isDigit c = false) : scanFraction ('.' :: (ds ++ r)) = (ds, r) := by
  have hspan := span_digits hd.digit hr
  cases hds : ds with
  | nil => exact absurd hds hd.nonempty
  | cons d t =>
    rw [hds] at hspan
    rw [scanFraction, hspan]

theorem scan_no_fraction {r : List Char} (hr : r.head? ≠ some '.') : scanFraction r = ([], r) := by
  unfold scanFraction
  split
  · exact absurd rfl hr
  · rfl

theorem scan_exponent_digits (negative : Bool) {ds r : List Char} (hd : Digits ds)
    (hr : ∀ c ∈ r.head?, isDigit c = false) :
    scanExponentDigits? negative (ds ++ r) =
      some (if negative then -(toNat ds : Int) else toNat ds, r) := by
  have hspan := span_digits hd.digit hr
  cases hds : ds with
  | nil => exact absurd hds hd.nonempty
  | cons d t =>
    rw [hds] at hspan
    rw [scanExponentDigits?, hspan]

theorem scan_no_exponent {r : List Char} (hr : ∀ c ∈ r.head?, c ≠ 'e' ∧ c ≠ 'E') :
    scanExponent? r = none := by
  cases r with
  | nil => rfl
  | cons c r =>
    have hm : ¬ (c = 'e' ∨ c = 'E') := not_or.mpr (hr c rfl)
    exact if_neg hm

end Numeral

theorem Ends.no_digit {r : List Char} (h : Ends r) : ∀ c ∈ r.head?, Numeral.isDigit c = false :=
  fun c hc => (h c hc).1

theorem Ends.no_point {r : List Char} (h : Ends r) : r.head? ≠ some '.' :=
  fun hp => (h '.' hp).2.1 rfl

theorem Ends.no_exponent {r : List Char} (h : Ends r) : ∀ c ∈ r.head?, c ≠ 'e' ∧ c ≠ 'E' :=
  fun c hc => (h c hc).2.2

namespace Numeral

theorem scan_signed (negative : Bool) {d : Char} (hd : isDigit d) (r : List Char) :
    scan? (Binary64.sign negative ++ d :: r) = scanUnsigned? negative (d :: r) := by
  cases negative with
  | true => rfl
  | false =>
    change scan? (d :: r) = _
    rw [scan?]
    intro t ht
    rw [(List.cons.inj ht).1] at hd
    cases hd

theorem scan_integer (negative : Bool) {ds r : List Char} (hd : Whole ds) (hr : Ends r) :
    scan? (Binary64.sign negative ++ (ds ++ r)) = some (⟨negative, ds, [], none⟩, r) := by
  have hwhole := scan_whole hd hr.no_digit
  cases hds : ds with
  | nil => exact absurd hds hd.nonempty
  | cons d t =>
    have hdigit : isDigit d := hd.digit d (hds ▸ List.mem_cons_self)
    rw [hds] at hwhole
    rw [List.cons_append, scan_signed negative hdigit, ← List.cons_append, scanUnsigned?, hwhole,
      Option.map_some]
    simp only [scan_no_fraction hr.no_point, scan_no_exponent hr.no_exponent]

end Numeral

namespace Json

theorem integer_signed (n : Int) (cs : List Char) :
    Integer.signed n cs = Binary64.sign (decide (n < 0)) ++ cs := by
  unfold Integer.signed Binary64.sign
  split <;> simp [*]

theorem digits_length {n k : Nat} (hk : 0 < k) (h : n < Nat.pow 10 k) :
    (Nat.toDigits 10 n).length ≤ k :=
  (Nat.length_toDigits_le_iff (by decide) hk).mpr h

theorem number_integer {n : Int} (h : n.natAbs < Integer.ceiling) {r : List Char} (hr : Ends r) :
    number (Integer.signed n (Nat.toDigits 10 n.natAbs) ++ r) = .ok (.int n, r) := by
  have hscan := Numeral.scan_integer (decide (n < 0)) (whole_of_nat n.natAbs) hr
  have hint : Numeral.toInt ⟨decide (n < 0), Nat.toDigits 10 n.natAbs, [], none⟩ = n := by
    simp only [Numeral.toInt, Numeral.toNat, Nat.ofDigitChars_ten_toDigits, decide_eq_true_eq]
    split <;> omega
  delta Integer.ceiling at h
  have hshort := digits_length (by decide) h
  rw [integer_signed, List.append_assoc, number, hscan]
  simp only [Numeral.isInteger, List.isEmpty_nil, Option.isNone_none, Bool.and_true, Bool.not_true,
    if_false, Bool.false_eq_true, hshort, if_true, hint]

/-- What starts with a digit, or with a minus and a digit, is no other value. -/
theorem value_number (fuel room : Nat) (negative : Bool) {d : Char} (hd : Numeral.isDigit d)
    (r : List Char) :
    value (fuel + 1) room (Binary64.sign negative ++ d :: r) =
      number (Binary64.sign negative ++ d :: r) := by
  have hmarks : ∀ c ∈ ['"', '[', '\x7b', 'n', 't', 'f', 'N', 'I', '-'], d ≠ c := by
    rintro c hc rfl
    have hall : ∀ c ∈ ['"', '[', '\x7b', 'n', 't', 'f', 'N', 'I', '-'],
        Numeral.isDigit c = false := by simp [Numeral.isDigit]
    rw [hall d hc] at hd
    cases hd
  simp only [List.mem_cons, List.not_mem_nil, or_false, forall_eq_or_imp, forall_eq] at hmarks
  cases negative with
  | true =>
    change value (fuel + 1) room ('-' :: d :: r) = _
    rw [value.eq_13]
    · rfl
    all_goals simp [hmarks]
  | false =>
    change value (fuel + 1) room (d :: r) = _
    rw [value.eq_13]
    · rfl
    all_goals simp [hmarks]

end Json
end QueryTelemetry
