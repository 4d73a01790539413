import QueryTelemetry.Proofs.Decimals

/-!
# How a number is spelled

The digits of a number are laid out with a point and perhaps an exponent. Scanned back, they stand
for the same value and are no integer, so a document gives back every number it was written with.
-/

set_option autoImplicit false

namespace QueryTelemetry
open Numeral

theorem digits_of_append {ds es : List Char} (hd : Digits ds) (he : ∀ c ∈ es, isDigit c) :
    Digits (ds ++ es) where
  nonempty := List.append_ne_nil_of_left_ne_nil hd.nonempty es
  digit c hc := (List.mem_append.mp hc).elim (hd.digit c) (he c)

theorem digit_of_zeros (n : Nat) : ∀ c ∈ zeros n, isDigit c := by
  intro c hc
  rw [(List.mem_replicate.mp hc).2]
  rfl

theorem zeros_append_digits (n : Nat) {ds : List Char} (hd : Digits ds) :
    Digits (zeros n ++ ds) where
  nonempty := List.append_ne_nil_of_right_ne_nil _ hd.nonempty
  digit c hc := (List.mem_append.mp hc).elim (digit_of_zeros n c) (hd.digit c)

theorem to_nat_zeros_append (n : Nat) (ds : List Char) : toNat (zeros n ++ ds) = toNat ds := by
  rw [Numeral.toNat, Numeral.toNat, Nat.ofDigitChars_append, zeros,
    Nat.ofDigitChars_replicate_zero, Nat.mul_zero]

theorem to_nat_append_zeros (n : Nat) (ds : List Char) :
    toNat (ds ++ zeros n) = 10 ^ n * toNat ds := by
  rw [Numeral.toNat, Numeral.toNat, Nat.ofDigitChars_append, zeros, Nat.ofDigitChars_replicate_zero]

theorem strip_zeros (ds : List Char) :
    ∃ n, ds = (ds.reverse.dropWhile (· = '0')).reverse ++ zeros n := by
  have hz : ds.reverse.takeWhile (· = '0') = zeros (ds.reverse.takeWhile (· = '0')).length := by
    apply List.eq_replicate_of_mem
    intro c hc
    exact of_decide_eq_true (List.all_eq_true.mp List.all_takeWhile c hc)
  refine ⟨(ds.reverse.takeWhile (· = '0')).length, ?_⟩
  apply List.reverse_injective
  rw [List.reverse_append, List.reverse_reverse, zeros, List.reverse_replicate, ← zeros, ← hz,
    List.takeWhile_append_dropWhile]

structure LaidOut (y : Decimal) (ds : List Char) (point : Int) : Prop extends Digits ds where
  lead : ds.head? ≠ some '0'
  value : y.value = toNat ds * 10 ^ (point - ds.length)

theorem layout_laid_out {y : Decimal} (h : y.digits ≠ 0) : LaidOut y y.layout.1 y.layout.2 := by
  obtain ⟨n, hn⟩ := strip_zeros (Nat.toDigits 10 y.digits)
  have hds : y.layout.1 = ((Nat.toDigits 10 y.digits).reverse.dropWhile (· = '0')).reverse := rfl
  have hpoint : y.layout.2 = (Nat.toDigits 10 y.digits).length + y.exponent := rfl
  rw [← hds] at hn
  have hnat : y.digits = 10 ^ n * toNat y.layout.1 := by
    rw [← to_nat_append_zeros, ← hn]
    exact Nat.ofDigitChars_ten_toDigits.symm
  have hne : y.layout.1 ≠ [] := by
    intro hnil
    rw [hnil] at hnat
    exact h hnat
  have hlen : (Nat.toDigits 10 y.digits).length = y.layout.1.length + n := by
    conv_lhs => rw [hn]
    rw [List.length_append, zeros, List.length_replicate]
  refine ⟨⟨hne, ?_⟩, ?_, ?_⟩
  · intro c hc
    apply (digits_of_nat y.digits).digit
    rw [hn]
    exact List.mem_append_left _ hc
  · have hlead := lead_of_nat (Nat.pos_of_ne_zero h)
    rw [hn] at hlead
    obtain ⟨d, ds, hcons⟩ := List.exists_cons_of_ne_nil hne
    rw [hcons] at hlead ⊢
    exact hlead
  · have hexp : y.layout.2 - y.layout.1.length = n + y.exponent := by
      rw [hpoint, hlen]
      omega
    rw [Decimal.value, hexp, zpow_add₀ (by decide), zpow_natCast, hnat]
    push_cast
    ring

def Numeral.decimal (t : Numeral) : Decimal :=
  ⟨toNat (t.whole ++ t.fraction), t.exponent.getD 0 - (t.fraction.length : Int)⟩

theorem to_binary_decimal (t : Numeral) : t.toBinary64 = t.decimal.toBinary64 t.negative := rfl

theorem scan_positional (negative : Bool) {w f r : List Char} (hw : Whole w) (hf : Digits f)
    (hr : Ends r) :
    scanUnsigned? negative (w ++ '.' :: (f ++ r)) = some (⟨negative, w, f, none⟩, r) := by
  have hpoint : ∀ c ∈ ('.' :: (f ++ r)).head?, isDigit c = false := by
    intro c hc
    cases hc
    rfl
  rw [scanUnsigned?, scan_whole hw hpoint, Option.map_some]
  simp only [scan_fraction hf hr.no_digit, scan_no_exponent hr.no_exponent]

theorem scan_exponent_text (e : Int) {r : List Char} (hr : ∀ c ∈ r.head?, isDigit c = false) :
    scanExponent? (exponentText e ++ r) = some (e, r) := by
  have hd : Digits (zeros (2 - (Nat.toDigits 10 e.natAbs).length) ++ Nat.toDigits 10 e.natAbs) :=
    zeros_append_digits _ (digits_of_nat e.natAbs)
  have hnat : toNat (zeros (2 - (Nat.toDigits 10 e.natAbs).length) ++ Nat.toDigits 10 e.natAbs) =
      e.natAbs := by
    rw [to_nat_zeros_append]
    exact Nat.ofDigitChars_ten_toDigits
  unfold exponentText
  dsimp only
  split
  · have hscan := scan_exponent_digits true hd hr
    rw [hnat, if_pos rfl] at hscan
    rw [List.cons_append, List.cons_append, scanExponent?, if_pos (Or.inl rfl), hscan]
    congr 2
    omega
  · have hscan := scan_exponent_digits false hd hr
    rw [hnat, if_neg Bool.false_ne_true] at hscan
    rw [List.cons_append, List.cons_append, scanExponent?, if_pos (Or.inl rfl), hscan]
    congr 2
    omega

theorem scan_exponential (negative : Bool) {w f r : List Char} (hw : Whole w)
    (hf : ∀ c ∈ f, isDigit c) (e : Int) (hr : Ends r) :
    scanUnsigned? negative (w ++ ((if f = [] then [] else '.' :: f) ++ (exponentText e ++ r))) =
      some (⟨negative, w, f, some e⟩, r) := by
  have hexp : ∀ c ∈ (exponentText e ++ r).head?, isDigit c = false := by
    intro c hc
    cases hc
    rfl
  have hfraction : scanFraction ((if f = [] then [] else '.' :: f) ++ (exponentText e ++ r)) =
      (f, exponentText e ++ r) := by
    split
    · rename_i hnil
      rw [hnil]
      exact scan_no_fraction fun hpoint => absurd (Option.some.inj hpoint) (by decide)
    · rename_i hne
      exact scan_fraction ⟨hne, hf⟩ hexp
  have hmark : ∀ c ∈ ((if f = [] then [] else '.' :: f) ++ (exponentText e ++ r)).head?,
      isDigit c = false := by
    intro c hc
    split at hc
    · exact hexp c hc
    · cases hc
      rfl
  rw [scanUnsigned?, scan_whole hw hmark, Option.map_some]
  simp only [hfraction, scan_exponent_text e hr.no_digit]

structure Numeral.Spells (t : Numeral) (negative : Bool) (y : Decimal) : Prop where
  sign : t.negative = negative
  fractional : t.isInteger = false
  value : t.decimal.value = y.value

namespace LaidOut
variable {y : Decimal} {ds r : List Char} {point : Int} (h : LaidOut y ds point) (hr : Ends r)
  (negative : Bool)
include h hr

theorem scan_exponent {d : Char} {f : List Char} (hds : ds = d :: f) :
    ∃ t, scanUnsigned? negative
        (d :: (if f = [] then [] else '.' :: f) ++ exponentText (point - 1) ++ r) = some (t, r) ∧
      t.Spells negative y := by
  have hdigit : ∀ c ∈ d :: f, isDigit c := hds ▸ h.digit
  have hw : Whole [d] := by
    refine ⟨⟨List.cons_ne_nil _ _, ?_⟩, Or.inr ?_⟩
    · intro c hc
      rw [List.mem_singleton.mp hc]
      exact hdigit d List.mem_cons_self
    · have hlead := h.lead
      rwa [hds] at hlead
  have hscan := scan_exponential negative hw (fun c hc => hdigit c (List.mem_cons_of_mem d hc))
    (point - 1) hr
  have hexp : (point - 1) - (f.length : Int) = point - ds.length := by
    rw [hds, List.length_cons]
    omega
  refine ⟨⟨negative, [d], f, some (point - 1)⟩, ?_, rfl, Bool.and_false _, ?_⟩
  · rw [← hscan, List.append_assoc]
    rfl
  · rw [h.value, decimal, Decimal.value, Option.getD_some, hexp, hds]
    rfl

theorem scan_leading_zeros (hp : point ≤ 0) :
    ∃ t, scanUnsigned? negative ('0' :: '.' :: (zeros (-point).toNat ++ ds) ++ r) = some (t, r) ∧
      t.Spells negative y := by
  have hf := zeros_append_digits (-point).toNat h.toDigits
  have hnat : toNat (['0'] ++ (zeros (-point).toNat ++ ds)) = toNat ds :=
    to_nat_zeros_append ((-point).toNat + 1) ds
  have hexp : 0 - ((zeros (-point).toNat ++ ds).length : Int) = point - ds.length := by
    rw [List.length_append, zeros, List.length_replicate]
    omega
  refine ⟨_, scan_positional negative (whole_of_nat 0) hf hr, rfl, ?_, ?_⟩
  · rw [isInteger, List.isEmpty_eq_false_iff.mpr hf.nonempty, Bool.false_and]
  · rw [h.value, decimal, Decimal.value, Option.getD_none, hexp, ← hnat]
    rfl

theorem scan_trailing_zeros (hp : (ds.length : Int) ≤ point) :
    ∃ t, scanUnsigned? negative
        (ds ++ zeros (point.toNat - ds.length) ++ ['.', '0'] ++ r) = some (t, r) ∧
      t.Spells negative y := by
  have hw : Whole (ds ++ zeros (point.toNat - ds.length)) := by
    refine ⟨digits_of_append h.toDigits (digit_of_zeros _), Or.inr ?_⟩
    obtain ⟨d, f, hds⟩ := List.exists_cons_of_ne_nil h.nonempty
    have hlead := h.lead
    rw [hds] at hlead ⊢
    exact hlead
  have hscan := scan_positional negative hw (digits_of_nat 0) hr
  have hzeros : ds ++ zeros (point.toNat - ds.length) ++ ['0'] =
      ds ++ zeros (point.toNat - ds.length + 1) := by
    rw [zeros, zeros, List.replicate_succ', List.append_assoc]
  have hexp : ((point.toNat - ds.length + 1 : Nat) : Int) + (0 - 1) = point - ds.length := by
    omega
  refine ⟨⟨negative, ds ++ zeros (point.toNat - ds.length), ['0'], none⟩, ?_, rfl, rfl, ?_⟩
  · rw [← Nat.toDigits_zero 10, ← hscan, List.append_assoc]
    rfl
  · rw [h.value, decimal, Decimal.value, hzeros, to_nat_append_zeros, ← hexp,
      zpow_add₀ (by decide), zpow_natCast]
    push_cast
    simp only [Option.getD_none, List.length_singleton, Nat.cast_one]
    ring

theorem scan_split_digits (hp : 0 < point) (hlen : point < ds.length) :
    ∃ t, scanUnsigned? negative
        (ds.take point.toNat ++ '.' :: ds.drop point.toNat ++ r) = some (t, r) ∧
      t.Spells negative y := by
  have hw : Whole (ds.take point.toNat) := by
    refine ⟨⟨?_, fun c hc => h.digit c (List.mem_of_mem_take hc)⟩, Or.inr ?_⟩
    · rw [ne_eq, List.take_eq_nil_iff, not_or]
      exact ⟨by omega, h.nonempty⟩
    · rw [List.head?_take, if_neg (by omega)]
      exact h.lead
  have hf : Digits (ds.drop point.toNat) := by
    refine ⟨?_, fun c hc => h.digit c (List.mem_of_mem_drop hc)⟩
    rw [ne_eq, List.drop_eq_nil_iff]
    omega
  have hexp : 0 - ((ds.drop point.toNat).length : Int) = point - ds.length := by
    rw [List.length_drop]
    omega
  refine ⟨⟨negative, ds.take point.toNat, ds.drop point.toNat, none⟩, ?_, rfl, ?_, ?_⟩
  · rw [← scan_positional negative hw hf hr, List.append_assoc]
    rfl
  · rw [isInteger, List.isEmpty_eq_false_iff.mpr hf.nonempty, Bool.false_and]
  · rw [h.value, decimal, Decimal.value, Option.getD_none, hexp, List.take_append_drop]

end LaidOut

/-- The text of a number is scanned as a number of the same value, and never as an integer. -/
theorem scan_chars (negative : Bool) {y : Decimal} (h : y.digits ≠ 0) {r : List Char}
    (hr : Ends r) :
    ∃ t, scanUnsigned? negative (y.chars ++ r) = some (t, r) ∧ t.Spells negative y := by
  have hl := layout_laid_out h
  unfold Decimal.chars
  revert hl
  rcases y.layout with ⟨ds, point⟩
  intro hl
  dsimp only at hl ⊢
  rw [if_neg hl.nonempty]
  split
  · cases hds : ds with
    | nil => exact absurd hds hl.nonempty
    | cons d f => exact hl.scan_exponent hr negative hds
  · split
    · rename_i hp
      exact hl.scan_leading_zeros hr negative hp
    · rename_i hp
      split
      · exact hl.scan_trailing_zeros hr negative (by omega)
      · exact hl.scan_split_digits hr negative (by omega) (by omega)

theorem shortest_digits {x : Magnitude} (h : x.significand ≠ 0) : x.shortest.digits ≠ 0 := by
  intro hz
  have hback := x.shortest_reads_back false
  rw [Decimal.toBinary64, if_pos hz] at hback
  cases hback
  exact h rfl

theorem scan_magnitude (negative : Bool) (x : Magnitude) {r : List Char} (hr : Ends r) :
    ∃ t, scanUnsigned? negative
        ((if x.significand = 0 then ['0', '.', '0'] else x.shortest.chars) ++ r) = some (t, r) ∧
      t.isInteger = false ∧ t.toBinary64 = .finite negative x := by
  split
  · rename_i hz
    refine ⟨_, scan_positional negative (whole_of_nat 0) (digits_of_nat 0) hr, rfl, ?_⟩
    apply x.reads_value
    rw [Magnitude.value, hz, Nat.cast_zero, zero_mul, Decimal.value_zero_iff]
    rfl
  · rename_i hnz
    obtain ⟨t, hscan, hspells⟩ := scan_chars negative (shortest_digits hnz) hr
    refine ⟨t, hscan, hspells.fractional, ?_⟩
    rw [to_binary_decimal, Decimal.to_binary_congr t.negative hspells.value, hspells.sign,
      x.shortest_reads_back]

theorem scan_unsigned_head {negative : Bool} {cs : List Char} {p : Numeral × List Char}
    (h : scanUnsigned? negative cs = some p) : ∃ d t, cs = d :: t ∧ isDigit d := by
  obtain ⟨w, hw, -⟩ := Option.map_eq_some_iff.mp h
  unfold scanWhole? at hw
  split at hw
  · exact ⟨_, _, rfl, rfl⟩
  · cases cs with
    | nil => cases hw
    | cons d t =>
      refine ⟨d, t, rfl, ?_⟩
      by_contra hd
      rw [spanDigits, List.takeWhile_cons_of_neg hd] at hw
      cases hw

namespace Json

/-- Any number of the format is read back, whatever it is and wherever it stands. -/
theorem value_float (fuel room : Nat) (x : Binary64) {r : List Char} (hr : Ends r) :
    value (fuel + 1) room (floatChars x ++ r) = .ok (.float x, r) := by
  match x with
  | .nan => exact value.eq_10 room fuel r
  | .infinite false => exact value.eq_11 room fuel r
  | .infinite true => exact value.eq_12 room fuel r
  | .finite negative x =>
    obtain ⟨t, hscan, hfraction, hread⟩ := scan_magnitude negative x hr
    obtain ⟨d, cs, hcs, hd⟩ := scan_unsigned_head hscan
    have hsigned : scan? (Binary64.sign negative ++ d :: cs) = some (t, r) := by
      rw [scan_signed negative hd, ← hcs, hscan]
    have hchars : floatChars (.finite negative x) ++ r = Binary64.sign negative ++ d :: cs := by
      rw [← hcs, ← List.append_assoc]
      rfl
    rw [hchars, value_number fuel room negative hd, number, hsigned]
    simp only [hfraction, Bool.not_false, if_true, hread]

theorem value_integer (fuel room : Nat) {n : Int} (hn : n.natAbs < Integer.ceiling) {r : List Char}
    (hr : Ends r) : value (fuel + 1) room
      (Integer.signed n (Nat.toDigits 10 n.natAbs) ++ r) = .ok (.int n, r) := by
  obtain ⟨d, ds, hds⟩ := List.exists_cons_of_ne_nil (digits_of_nat n.natAbs).nonempty
  have hd : isDigit d := (digits_of_nat n.natAbs).digit d (hds ▸ List.mem_cons_self)
  rw [← number_integer hn hr, integer_signed, hds, List.append_assoc]
  exact value_number fuel room _ hd (ds ++ r)

end Json

end QueryTelemetry
