import Mathlib.Logic.Function.Basic
import QueryTelemetry.Json.Basic
import QueryTelemetry.Json.Parser

set_option autoImplicit false

namespace QueryTelemetry

namespace Text

theorem hex_value_digit {d : Nat} (h : d < 16) : hexValue? (Nat.digitChar d) = some d := by
  have hall : ∀ d < 16, hexValue? (Nat.digitChar d) = some d := by decide
  exact hall d h

theorem hex_value_hex_digit (n : Nat) : hexValue? (hexDigit n) = some (n % 16) :=
  hex_value_digit (Nat.mod_lt n (by decide))

end Text

namespace Json
open QueryTelemetry.Text

theorem hex_unit_hex (u : UInt16) :
    hexUnit? (hexDigit (u.toNat / 16 / 16 / 16)) (hexDigit (u.toNat / 16 / 16))
      (hexDigit (u.toNat / 16)) (hexDigit u.toNat) = some u := by
  have hu : u.toNat < 65536 := u.toNat_lt
  have hn : ((u.toNat / 16 / 16 / 16 % 16 * 16 + u.toNat / 16 / 16 % 16) * 16 +
      u.toNat / 16 % 16) * 16 + u.toNat % 16 = u.toNat := by omega
  simp only [hexUnit?, hex_value_hex_digit, Option.bind_eq_bind, Option.bind_some, hn]
  exact congrArg some (UInt16.ofNat_toNat)

theorem string_body_hex (u : UInt16) (r : List Char) :
    stringBody? ('\\' :: 'u' :: hex 4 u.toNat ++ r) =
      (stringBody? r).map fun p => (u :: p.1, p.2) := by
  have hd : hex 4 u.toNat = [hexDigit (u.toNat / 16 / 16 / 16), hexDigit (u.toNat / 16 / 16),
      hexDigit (u.toNat / 16), hexDigit u.toNat] := rfl
  simp only [hd, List.cons_append, List.nil_append]
  rw [stringBody?, hex_unit_hex, Option.bind_some]

theorem string_body_short {e : Char} {u : UInt16} (h : shortEscape? e = some u) (r : List Char) :
    stringBody? ('\\' :: e :: r) = (stringBody? r).map fun p => (u :: p.1, p.2) := by
  have he : e ≠ 'u' := by
    rintro rfl
    cases h
  rw [stringBody?, h, Option.bind_some]
  intro a b c d t hc
  exact absurd hc he

theorem string_body_plain {c : Char} {u : UInt16} (hu : u.toNat < 128) (hc : c.toNat = u.toNat)
    (hlow : 0x20 ≤ c.toNat) (hquote : c ≠ '"') (hslash : c ≠ '\\') (r : List Char) :
    stringBody? (c :: r) = (stringBody? r).map fun p => (u :: p.1, p.2) := by
  have hone : Utf16.ofChar c = [u] := by
    rw [Utf16.ofChar, if_pos (by omega), hc]
    exact congrArg (fun v => [v]) UInt16.ofNat_toNat
  rw [stringBody?.eq_5, if_neg (by simp [hslash]; omega), hone]
  · rfl
  all_goals intros; simp_all

/-- A unit in its short, plain or long form, in front of anything. -/
theorem string_body_escape (u : UInt16) (r : List Char) :
    stringBody? (escapeUnit u ++ r) = (stringBody? r).map fun p => (u :: p.1, p.2) := by
  have hunit {n : Nat} (h : u.toNat = n) : u = UInt16.ofNat n := by rw [← h, UInt16.ofNat_toNat]
  unfold escapeUnit
  split
  next h => exact string_body_short (hunit h ▸ rfl) r
  next h => exact string_body_short (hunit h ▸ rfl) r
  next h => exact string_body_short (hunit h ▸ rfl) r
  next h => exact string_body_short (hunit h ▸ rfl) r
  next h => exact string_body_short (hunit h ▸ rfl) r
  next h => exact string_body_short (hunit h ▸ rfl) r
  next h => exact string_body_short (hunit h ▸ rfl) r
  next hquote hslash _ _ _ _ _ =>
    split
    · rename_i hp
      simp only [isPlain, Bool.and_eq_true, decide_eq_true_eq] at hp
      have hall : ∀ n < 128, (Char.ofNat n).toNat = n := by decide
      have hv : (Char.ofNat u.toNat).toNat = u.toNat := hall u.toNat (by omega)
      apply string_body_plain (by omega) hv (by omega)
      · intro hc
        exact hquote (hv ▸ hc ▸ rfl)
      · intro hc
        exact hslash (hv ▸ hc ▸ rfl)
    · exact string_body_hex u r

theorem string_escaped (s : Utf16) (r : List Char) :
    string (s.flatMap escapeUnit ++ '"' :: r) = .ok (s, r) := by
  have hbody : stringBody? (s.flatMap escapeUnit ++ '"' :: r) = some (s, r) := by
    induction s with
    | nil => rfl
    | cons u s ih =>
      rw [List.flatMap_cons, List.append_assoc, string_body_escape, ih, Option.map_some]
  rw [string, hbody]

end Json

namespace Utf16

theorem code_points_single {u : UInt16} (h : isHigh u = false) (r : Utf16) :
    codePoints (u :: r) = u.toNat :: codePoints r := by
  cases r with
  | nil => rfl
  | cons l r => simp [codePoints, h]

theorem code_points_pair {u l : UInt16} (hu : isHigh u) (hl : isLow l) (r : Utf16) :
    codePoints (u :: l :: r) =
      (0x10000 + (u.toNat - 0xD800) * 0x400 + (l.toNat - 0xDC00)) :: codePoints r := by
  simp [codePoints, hu, hl]

theorem code_points_of_char (c : Char) (r : Utf16) :
    codePoints (ofChar c ++ r) = c.toNat :: codePoints r := by
  have hvalid : c.toNat < 0xD800 ∨ 0xDFFF < c.toNat ∧ c.toNat < 0x110000 := c.valid
  unfold ofChar
  split
  next hs =>
    have hu : c.toNat.toUInt16.toNat = c.toNat := UInt16.toNat_ofNat_of_lt hs
    have hhigh : isHigh c.toNat.toUInt16 = false := by
      simp only [isHigh, hu, Bool.and_eq_false_iff, decide_eq_false_iff_not]
      omega
    rw [List.singleton_append, code_points_single hhigh, hu]
  next hs =>
    have hsize : UInt16.size = 0x10000 := rfl
    have hh : (0xD800 + (c.toNat - 0x10000) / 0x400).toUInt16.toNat =
        0xD800 + (c.toNat - 0x10000) / 0x400 := UInt16.toNat_ofNat_of_lt (by omega)
    have hl : (0xDC00 + (c.toNat - 0x10000) % 0x400).toUInt16.toNat =
        0xDC00 + (c.toNat - 0x10000) % 0x400 := UInt16.toNat_ofNat_of_lt (by omega)
    have hhigh : isHigh (0xD800 + (c.toNat - 0x10000) / 0x400).toUInt16 := by
      simp only [isHigh, hh, Bool.and_eq_true, decide_eq_true_eq]
      omega
    have hlow : isLow (0xDC00 + (c.toNat - 0x10000) % 0x400).toUInt16 := by
      simp only [isLow, hl, Bool.and_eq_true, decide_eq_true_eq]
      omega
    simp only [List.cons_append, List.nil_append]
    rw [code_points_pair hhigh hlow, hh, hl]
    refine congrArg (· :: codePoints r) ?_
    omega

theorem code_points_of_string (s : String) : codePoints (ofString s) = s.toList.map Char.toNat := by
  rw [ofString]
  induction s.toList with
  | nil => rfl
  | cons c cs ih => rw [List.flatMap_cons, code_points_of_char, ih, List.map_cons]

theorem of_string_injective : Function.Injective ofString := by
  intro s t h
  have hp := congrArg codePoints h
  rw [code_points_of_string, code_points_of_string] at hp
  have hinj : Function.Injective Char.toNat := by
    intro c d hcd
    exact Char.ext (UInt32.toNat_inj.mp hcd)
  exact String.toList_injective ((List.map_inj_right fun _ _ => @hinj _ _).mp hp)

end Utf16

end QueryTelemetry
