import Mathlib.Data.Int.Log
import Mathlib.Data.Rat.Floor
import Mathlib.Tactic.Positivity
import Mathlib.Tactic.Ring
import QueryTelemetry.Number.Decimal

/-!
# The nearest number

What a quotient is rounded to depends on its value alone, not on how it is written, and the sign
goes through. A number that is in the format is its own nearest.
-/

set_option autoImplicit false

namespace QueryTelemetry

theorem div_even_scale (k n d : Nat) (hk : 0 < k) : divEven (k * n) (k * d) = divEven n d := by
  have hmod : 2 * (k * n % (k * d)) = k * (2 * (n % d)) := by
    rw [Nat.mul_mod_mul_left]
    ring
  simp only [divEven, hmod, Nat.mul_div_mul_left n d hk, Nat.mul_lt_mul_left hk,
    Nat.mul_right_inj hk.ne']

theorem div_even_congr {n d m c : Nat} (hd : 0 < d) (hc : 0 < c) (h : n * c = m * d) :
    divEven n d = divEven m c := by
  calc divEven n d = divEven (c * n) (c * d) := (div_even_scale c n d hc).symm
    _ = divEven (d * m) (d * c) := by rw [Nat.mul_comm c n, h, Nat.mul_comm m d, Nat.mul_comm c d]
    _ = divEven m c := div_even_scale d m c hd

theorem div_even_cases (n d : Nat) : divEven n d = n / d ∨ divEven n d = n / d + 1 := by
  unfold divEven
  split
  · exact Or.inr rfl
  · exact Or.inl rfl

/-- A whole number times a power, as a quotient. -/
theorem power_quotient (b m : Nat) (e : Int) (hb : 0 < b) :
    let q := if 0 ≤ e then (m * Nat.pow b e.toNat, 1) else (m, Nat.pow b (-e).toNat)
    0 < q.2 ∧ (q.1 : ℚ) / q.2 = m * (b : ℚ) ^ e := by
  split
  · rename_i he
    refine ⟨Nat.one_pos, ?_⟩
    simp only [Nat.pow_eq, Nat.cast_mul, Nat.cast_pow, Nat.cast_one, div_one]
    rw [← zpow_natCast, Int.toNat_of_nonneg he]
  · rename_i he
    refine ⟨Nat.pow_pos hb, ?_⟩
    simp only [Nat.pow_eq, Nat.cast_pow]
    rw [← zpow_natCast, Int.toNat_of_nonneg (by omega), zpow_neg, div_inv_eq_mul]

def Magnitude.value (x : Magnitude) : ℚ := x.significand * 2 ^ x.exponent

theorem Magnitude.quotient_value (x : Magnitude) :
    0 < x.quotient.2 ∧ (x.quotient.1 : ℚ) / x.quotient.2 = x.value :=
  power_quotient 2 x.significand x.exponent (by decide)

theorem two_zpow_within {r : ℚ} (hr : 0 < r) {e : Int} : (2 : ℚ) ^ e ≤ r ↔ e ≤ Int.log 2 r := by
  exact_mod_cast Int.zpow_le_iff_le_log Nat.one_lt_two hr

theorem below_two_zpow {r : ℚ} (hr : 0 < r) {e : Int} : r < (2 : ℚ) ^ e ↔ Int.log 2 r < e := by
  exact_mod_cast Int.lt_zpow_iff_log_lt Nat.one_lt_two hr

namespace Binary64

theorem reaches_iff (num den : Nat) (e : Int) (hd : 0 < den) :
    reaches num den e = true ↔ (2 : ℚ) ^ e ≤ num / den := by
  have hden : (0 : ℚ) < den := Nat.cast_pos.mpr hd
  unfold reaches
  rw [le_div_iff₀ hden]
  split
  · rename_i he
    obtain ⟨k, rfl⟩ := Int.eq_ofNat_of_zero_le he
    rw [decide_eq_true_iff, Int.toNat_natCast, zpow_natCast, ← Nat.cast_le (α := ℚ), mul_comm]
    simp
  · rename_i he
    obtain ⟨k, hk⟩ := Int.eq_ofNat_of_zero_le (a := -e) (by omega)
    have he : e = -(k : Int) := by omega
    subst he
    rw [decide_eq_true_iff, Int.neg_neg, Int.toNat_natCast, zpow_neg, zpow_natCast,
      inv_mul_le_iff₀ (by positivity), ← Nat.cast_le (α := ℚ), mul_comm]
    simp

/-- The exponent is read off the value. -/
theorem unit_exponent_value {num den : Nat} (hn : 0 < num) (hd : 0 < den) :
    unitExponent num den = max (Int.log 2 (num / den : ℚ) - 52) (-1074) := by
  have hnum : (0 : ℚ) < num := Nat.cast_pos.mpr hn
  have hden : (0 : ℚ) < den := Nat.cast_pos.mpr hd
  have hratio : (0 : ℚ) < num / den := div_pos hnum hden
  have hlow : Int.log 2 (num / den : ℚ) < num.log2 - den.log2 + 1 := by
    rw [← below_two_zpow hratio, div_lt_iff₀ hden]
    calc (num : ℚ) < 2 ^ (num.log2 + 1) := by exact_mod_cast Nat.lt_log2_self
      _ = 2 ^ ((num.log2 : Int) - den.log2 + 1) * 2 ^ den.log2 := by
        rw [← zpow_natCast, ← zpow_natCast, ← zpow_add₀ two_ne_zero]
        congr 1
        push_cast
        ring
      _ ≤ 2 ^ ((num.log2 : Int) - den.log2 + 1) * den :=
        mul_le_mul_of_nonneg_left (by exact_mod_cast Nat.log2_self_le hd.ne')
          (zpow_pos two_pos _).le
  have hhigh : (num.log2 : Int) - den.log2 - 1 ≤ Int.log 2 (num / den : ℚ) := by
    rw [← two_zpow_within hratio, le_div_iff₀ hden]
    calc (2 : ℚ) ^ ((num.log2 : Int) - den.log2 - 1) * den
        ≤ 2 ^ ((num.log2 : Int) - den.log2 - 1) * 2 ^ (den.log2 + 1) :=
          mul_le_mul_of_nonneg_left (by exact_mod_cast Nat.lt_log2_self.le)
            (zpow_pos two_pos _).le
      _ = 2 ^ num.log2 := by
        rw [← zpow_natCast, ← zpow_natCast, ← zpow_add₀ two_ne_zero]
        congr 1
        push_cast
        ring
      _ ≤ num := by exact_mod_cast Nat.log2_self_le hn.ne'
  -- the two bounds leave two exponents, and the comparison decides between them
  have hreach := reaches_iff num den (num.log2 - den.log2) hd
  rw [two_zpow_within hratio] at hreach
  unfold unitExponent
  dsimp only
  split
  · rename_i h
    have := hreach.mp h
    omega
  · rename_i h
    rw [hreach] at h
    omega

theorem round_congr (negative : Bool) {n d m c : Nat} (hd : 0 < d) (hc : 0 < c)
    (hratio : (n / d : ℚ) = m / c) : round negative n d = round negative m c := by
  have h : n * c = m * d := by
    rw [div_eq_div_iff (Nat.cast_ne_zero.mpr hd.ne') (Nat.cast_ne_zero.mpr hc.ne')] at hratio
    exact_mod_cast hratio
  by_cases hn : n = 0
  · subst hn
    have hm : m = 0 := by
      rcases Nat.mul_eq_zero.mp ((Nat.zero_mul c).symm.trans h).symm with hm | hm
      · exact hm
      · omega
    rw [hm, round, if_pos rfl, round, if_pos rfl]
  · have hm : m ≠ 0 := by
      rintro rfl
      rw [Nat.zero_mul] at h
      exact absurd h (Nat.mul_ne_zero hn hc.ne')
    have hunit : unitExponent n d = unitExponent m c := by
      rw [unit_exponent_value (Nat.pos_of_ne_zero hn) hd,
        unit_exponent_value (Nat.pos_of_ne_zero hm) hc, hratio]
    have hscaled (k : Nat) : n * (c * Nat.pow 2 k) = m * (d * Nat.pow 2 k) := by
      rw [← Nat.mul_assoc, h, Nat.mul_assoc]
    have hshifted (k : Nat) : n * Nat.pow 2 k * c = m * Nat.pow 2 k * d := by
      rw [Nat.mul_right_comm, h, Nat.mul_right_comm]
    have htwo (k : Nat) : 0 < Nat.pow 2 k := Nat.pow_pos (by decide)
    simp only [round, hn, hm, if_false, hunit]
    split
    · rw [div_even_congr (Nat.mul_pos hd (htwo _)) (Nat.mul_pos hc (htwo _)) (hscaled _)]
    · rw [div_even_congr hd hc (hshifted _)]

/-- The sign takes no part in rounding. -/
theorem round_sign {s t : Bool} {n d : Nat} {x : Magnitude} (h : round s n d = .finite s x) :
    round t n d = .finite t x := by
  have hpack {m : Nat} {e : Int} (h : pack s m e = .finite s x) : pack t m e = .finite t x := by
    unfold pack at h ⊢
    split at h
    · rename_i hc
      rw [dif_pos hc]
      cases h
      rfl
    · rename_i hc
      rw [dif_neg hc]
      split at h
      · rename_i hc
        rw [dif_pos hc]
        cases h
        rfl
      · cases h
  unfold round at h ⊢
  split at h
  · rename_i hn
    rw [if_pos hn]
    cases h
    rfl
  · rename_i hn
    rw [if_neg hn]
    dsimp only at h ⊢
    split at h
    · rename_i he
      rw [if_pos he]
      exact hpack h
    · rename_i he
      rw [if_neg he]
      exact hpack h

end Binary64

namespace Magnitude
open Binary64

variable {x : Magnitude}

theorem value_pos (h : x.significand ≠ 0) : 0 < x.value :=
  mul_pos (Nat.cast_pos.mpr (Nat.pos_of_ne_zero h)) (zpow_pos two_pos _)

theorem quotient_pos (h : x.significand ≠ 0) : 0 < x.quotient.1 := by
  obtain ⟨hd, hv⟩ := x.quotient_value
  have hratio := hv ▸ value_pos h
  exact Nat.cast_pos.mp ((div_pos_iff_of_pos_right (Nat.cast_pos.mpr hd)).mp hratio)

theorem value_below (x : Magnitude) : x.value < 2 ^ (x.exponent + 53) := by
  have hm : (x.significand : ℚ) < 2 ^ 53 := by exact_mod_cast x.canonical.1
  calc x.value < 2 ^ 53 * 2 ^ x.exponent := mul_lt_mul_of_pos_right hm (zpow_pos two_pos _)
    _ = 2 ^ (x.exponent + 53) := by
      rw [← zpow_natCast, ← zpow_add₀ two_ne_zero, add_comm]
      rfl

theorem value_within (h : 2 ^ 52 ≤ x.significand) : 2 ^ (x.exponent + 52) ≤ x.value := by
  have hm : (2 : ℚ) ^ 52 ≤ x.significand := by exact_mod_cast h
  calc (2 : ℚ) ^ (x.exponent + 52) = 2 ^ 52 * 2 ^ x.exponent := by
        rw [← zpow_natCast, ← zpow_add₀ two_ne_zero, add_comm]
        rfl
    _ ≤ x.value := mul_le_mul_of_nonneg_right hm (zpow_pos two_pos _).le

/-- The canonical exponent is the one that rounding chooses. -/
theorem unit_exponent_quotient (h : x.significand ≠ 0) :
    unitExponent x.quotient.1 x.quotient.2 = x.exponent := by
  obtain ⟨hd, hv⟩ := x.quotient_value
  have hpos := value_pos h
  have hbelow := (below_two_zpow hpos).mp x.value_below
  obtain ⟨-, hleast, -, hfull | hedge⟩ := x.canonical
  · have hwithin := (two_zpow_within hpos).mp (value_within hfull)
    rw [unit_exponent_value (quotient_pos h) hd, hv]
    omega
  · rw [unit_exponent_value (quotient_pos h) hd, hv]
    omega

/-- A number of the format is rounded to itself. -/
theorem round_quotient (negative : Bool) (x : Magnitude) :
    Binary64.round negative x.quotient.1 x.quotient.2 = .finite negative x := by
  obtain ⟨m, e, hc⟩ := x
  by_cases hm : m = 0
  · subst hm
    obtain ⟨-, -, -, hfull | rfl⟩ := hc
    · exact absurd hfull (by decide)
    · rfl
  · have hunit : unitExponent _ _ = e := unit_exponent_quotient (x := ⟨m, e, hc⟩) hm
    have htwo (k : Nat) : 0 < Nat.pow 2 k := Nat.pow_pos (by decide)
    rw [Binary64.round, if_neg (quotient_pos (x := ⟨m, e, hc⟩) hm).ne', hunit]
    simp only [quotient]
    split
    · rw [Nat.one_mul, div_even_mul m _ (htwo _), pack, dif_pos hc]
    · rw [div_even_mul m _ (htwo _), pack, dif_pos hc]

end Magnitude
end QueryTelemetry
