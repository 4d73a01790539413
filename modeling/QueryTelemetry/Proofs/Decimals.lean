import QueryTelemetry.Proofs.Nearest
import QueryTelemetry.Proofs.Numerals

/-!
# Decimal text of a number, read back

Decimal text stands for a rational value, and what is read from it depends on that value alone. A
number is written by digits that read back as the number, or by all of its digits; where the point
and the exponent go makes no difference to the value.
-/

set_option autoImplicit false

namespace QueryTelemetry

theorem ten_zpow_within {r : ℚ} (hr : 0 < r) {e : Int} : (10 : ℚ) ^ e ≤ r ↔ e ≤ Int.log 10 r := by
  exact_mod_cast Int.zpow_le_iff_le_log (by decide) hr

theorem below_ten_zpow {r : ℚ} (hr : 0 < r) {e : Int} : r < (10 : ℚ) ^ e ↔ Int.log 10 r < e := by
  exact_mod_cast Int.lt_zpow_iff_log_lt (by decide) hr

namespace Decimal

def value (y : Decimal) : ℚ := y.digits * 10 ^ y.exponent

theorem quotient_value (y : Decimal) :
    0 < y.quotient.2 ∧ (y.quotient.1 : ℚ) / y.quotient.2 = y.value :=
  power_quotient 10 y.digits y.exponent (by decide)

theorem value_zero_iff (y : Decimal) : y.value = 0 ↔ y.digits = 0 := by
  have hten : (10 : ℚ) ^ y.exponent ≠ 0 := zpow_ne_zero _ (by decide)
  rw [value, mul_eq_zero_iff_right hten, Nat.cast_eq_zero]

theorem value_pos {y : Decimal} (h : y.digits ≠ 0) : 0 < y.value :=
  mul_pos (Nat.cast_pos.mpr (Nat.pos_of_ne_zero h)) (zpow_pos (by decide) _)

theorem digit_count_bounds {n : Nat} (h : n ≠ 0) :
    10 ^ (digitCount n - 1) ≤ n ∧ n < 10 ^ digitCount n := by
  have hlen {k : Nat} (hk : 0 < k) : digitCount n ≤ k ↔ n < 10 ^ k :=
    Nat.length_toDigits_le_iff (by decide) hk
  have hpos : 0 < digitCount n := Nat.length_toDigits_pos
  refine ⟨?_, (hlen hpos).mp le_rfl⟩
  by_cases hone : digitCount n = 1
  · rw [hone]
    exact Nat.pos_of_ne_zero h
  · by_contra hlt
    have := (hlen (k := digitCount n - 1) (by omega)).mpr (by omega)
    omega

/-- How many digits stand before the point is read off the value. -/
theorem size_value {y : Decimal} (h : y.digits ≠ 0) :
    (digitCount y.digits : Int) + y.exponent = Int.log 10 y.value + 1 := by
  obtain ⟨hlow, hhigh⟩ := digit_count_bounds h
  have hpos : 0 < digitCount y.digits := Nat.length_toDigits_pos
  have hten : (0 : ℚ) < 10 ^ y.exponent := zpow_pos (by decide) _
  have hwithin : (10 : ℚ) ^ ((digitCount y.digits - 1 : Nat) + y.exponent) ≤ y.value := by
    rw [zpow_add₀ (by decide), zpow_natCast]
    exact mul_le_mul_of_nonneg_right (by exact_mod_cast hlow) hten.le
  have hbelow : y.value < (10 : ℚ) ^ ((digitCount y.digits : Int) + y.exponent) := by
    rw [zpow_add₀ (by decide), zpow_natCast]
    exact mul_lt_mul_of_pos_right (by exact_mod_cast hhigh) hten
  have hlog := (ten_zpow_within (value_pos h)).mp hwithin
  have hlog' := (below_ten_zpow (value_pos h)).mp hbelow
  omega

theorem to_binary_congr (negative : Bool) {y z : Decimal} (h : y.value = z.value) :
    y.toBinary64 negative = z.toBinary64 negative := by
  by_cases hy : y.digits = 0
  · have hz : z.digits = 0 := by rw [← value_zero_iff, ← h, value_zero_iff, hy]
    simp only [toBinary64, hy, hz, if_true]
  · have hz : z.digits ≠ 0 := by rwa [ne_eq, ← value_zero_iff, ← h, value_zero_iff]
    obtain ⟨hyd, hyv⟩ := y.quotient_value
    obtain ⟨hzd, hzv⟩ := z.quotient_value
    have hround := Binary64.round_congr negative hyd hzd (hyv.trans (h.trans hzv.symm))
    simp only [toBinary64, hy, hz, if_false, size_value hy, size_value hz, h, hround]

theorem to_binary_sign {s t : Bool} {y : Decimal} {x : Magnitude}
    (h : y.toBinary64 s = .finite s x) : y.toBinary64 t = .finite t x := by
  unfold toBinary64 at h ⊢
  dsimp only at h ⊢
  split at h
  · rename_i hz
    rw [if_pos hz]
    cases h
    rfl
  · rename_i hz
    rw [if_neg hz]
    split at h
    · cases h
    · rename_i hlarge
      rw [if_neg hlarge]
      split at h
      · rename_i hsmall
        rw [if_pos hsmall]
        cases h
        rfl
      · rename_i hsmall
        rw [if_neg hsmall]
        exact Binary64.round_sign h

end Decimal

namespace Magnitude
open Decimal

/-- The format ends far inside the bounds that reading sets. -/
theorem size_in_bounds {x : Magnitude} (h : x.significand ≠ 0) {y : Decimal}
    (hv : y.value = x.value) (hy : y.digits ≠ 0) :
    -330 ≤ (digitCount y.digits : Int) + y.exponent ∧
      (digitCount y.digits : Int) + y.exponent ≤ 310 := by
  have hpos := value_pos h
  obtain ⟨-, hleast, hmost, -⟩ := x.canonical
  have hone : (1 : ℚ) ≤ x.significand := Nat.one_le_cast.mpr (Nat.one_le_iff_ne_zero.mpr h)
  have hleast' : (10 : Nat) ^ 331 ≥ 2 ^ 1074 := by decide +kernel
  have hmost' : 2 ^ 1024 ≤ (10 : Nat) ^ 310 := by decide +kernel
  have hlow : (10 : ℚ) ^ (-331 : Int) ≤ x.value := by
    calc (10 : ℚ) ^ (-331 : Int) ≤ 2 ^ (-1074 : Int) := by
          rw [zpow_neg, zpow_neg]
          exact inv_anti₀ (zpow_pos two_pos _) (by exact_mod_cast hleast')
      _ ≤ 2 ^ x.exponent := zpow_le_zpow_right₀ one_le_two hleast
      _ ≤ x.value := le_mul_of_one_le_left (zpow_pos two_pos _).le hone
  have hhigh : x.value < (10 : ℚ) ^ (310 : Int) := by
    calc x.value < 2 ^ (x.exponent + 53) := x.value_below
      _ ≤ 2 ^ (1024 : Int) := zpow_le_zpow_right₀ one_le_two (by omega)
      _ ≤ 10 ^ (310 : Int) := by exact_mod_cast hmost'
  have hlog := (ten_zpow_within hpos).mp hlow
  have hlog' := (below_ten_zpow hpos).mp hhigh
  rw [size_value hy, hv]
  omega

/-- The number is read from every spelling of its value. -/
theorem reads_value {x : Magnitude} {y : Decimal} (h : y.value = x.value) (negative : Bool) :
    y.toBinary64 negative = .finite negative x := by
  obtain ⟨hxd, hxv⟩ := x.quotient_value
  obtain ⟨hyd, hyv⟩ := y.quotient_value
  have hround := Binary64.round_congr negative hyd hxd (hyv.trans (h.trans hxv.symm))
  rw [round_quotient] at hround
  by_cases hx : x.significand = 0
  · have hy : y.digits = 0 := by
      rw [← value_zero_iff, h, value, hx, Nat.cast_zero, zero_mul]
    have hn : y.quotient.1 = 0 := by
      rw [(value_zero_iff y).mpr hy, div_eq_zero_iff, Nat.cast_eq_zero, Nat.cast_eq_zero] at hyv
      exact hyv.resolve_right hyd.ne'
    rw [Binary64.round, if_pos hn] at hround
    rw [toBinary64, if_pos hy]
    exact hround
  · have hy : y.digits ≠ 0 := by
      rw [ne_eq, ← value_zero_iff, h]
      exact (value_pos hx).ne'
    obtain ⟨hlow, hhigh⟩ := size_in_bounds hx h hy
    simp only [toBinary64, hy, if_false, hlow.not_gt, hhigh.not_gt, hround]

theorem exact_value (x : Magnitude) : x.exact.value = x.value := by
  unfold exact
  split
  · rename_i he
    simp only [Decimal.value, value, zpow_zero, mul_one, Nat.pow_eq, Nat.cast_mul, Nat.cast_pow,
      Nat.cast_ofNat]
    rw [← zpow_natCast, Int.toNat_of_nonneg he]
  · rename_i he
    have hpow : (10 : ℚ) ^ x.exponent = 2 ^ x.exponent * 5 ^ x.exponent := by
      rw [← mul_zpow]
      norm_num
    simp only [Decimal.value, value, Nat.pow_eq, Nat.cast_mul, Nat.cast_pow, Nat.cast_ofNat]
    rw [← zpow_natCast, Int.toNat_of_nonneg (by omega), hpow, zpow_neg, mul_assoc,
      mul_left_comm _ (2 ^ x.exponent), inv_mul_cancel₀ (zpow_ne_zero _ (by decide)), mul_one]

/-- A neighbour is taken from the grid only if it reads back. -/
theorem on_grid_reads_back {x : Magnitude} {k : Int} {y : Decimal} (h : x.onGrid? k = some y) :
    x.readsBack y := by
  unfold onGrid? at h
  dsimp only at h
  split at h
  next hb _ => exact Option.some.inj h ▸ hb
  next _ ha => exact Option.some.inj h ▸ ha
  next hb ha =>
    rw [← Option.some.inj h]
    rcases div_even_cases _ _ with he | he
    · rw [he]
      exact hb
    · rw [he]
      exact ha
  next => cases h

theorem shortest_reads_back (x : Magnitude) (negative : Bool) :
    x.shortest.toBinary64 negative = .finite negative x := by
  have hback : x.shortest.toBinary64 false = .finite false x := by
    unfold shortest
    dsimp only
    cases hf : (List.range 17).findSome? fun i : Nat =>
        x.onGrid? (leadingExponent x.quotient.1 x.quotient.2 - (i : Int)) with
    | none => exact reads_value x.exact_value false
    | some y =>
      obtain ⟨i, -, hi⟩ := List.exists_of_findSome?_eq_some hf
      exact eq_of_beq (on_grid_reads_back hi)
  exact to_binary_sign hback

end Magnitude
end QueryTelemetry
