import Mathlib.Data.List.TakeWhile
import Mathlib.Data.Nat.Digits.Defs
import QueryTelemetry.Number.Integer
import QueryTelemetry.Proofs.Nearest

/-!
# What spells an integer

An integer is spelled by a text of the grammar below, or by a binary number of its value. The
grammar is stated apart from the reader, which accepts exactly its texts.
-/

set_option autoImplicit false

namespace QueryTelemetry

namespace Text
variable {blank : Char → Bool}

theorem trim_split (blank : Char → Bool) (s : List Char) : ∃ before after,
    s = before ++ trim blank s ++ after ∧ (∀ c ∈ before, blank c) ∧ ∀ c ∈ after, blank c := by
  refine ⟨s.takeWhile blank, ((s.dropWhile blank).reverse.takeWhile blank).reverse, ?_,
    fun c hc => List.mem_takeWhile_imp hc,
    fun c hc => List.mem_takeWhile_imp (List.mem_reverse.mp hc)⟩
  rw [List.append_assoc, trim, ← List.reverse_append, List.takeWhile_append_dropWhile,
    List.reverse_reverse, List.takeWhile_append_dropWhile]

theorem drop_blanks {before : List Char} (hb : ∀ c ∈ before, blank c) {c : Char}
    (hc : blank c = false) (r : List Char) :
    (before ++ c :: r).dropWhile blank = c :: r := by
  rw [List.dropWhile_append_of_pos hb, List.dropWhile_cons_of_neg (by simp [hc])]

theorem trim_between {before core after : List Char} (hb : ∀ c ∈ before, blank c)
    (ha : ∀ c ∈ after, blank c) (hfirst : ∃ c r, core = c :: r ∧ blank c = false)
    (hlast : ∃ c r, core = r ++ [c] ∧ blank c = false) :
    trim blank (before ++ core ++ after) = core := by
  obtain ⟨c, r, hcore, hc⟩ := hfirst
  obtain ⟨d, q, hcore', hd⟩ := hlast
  have hfront : (before ++ core ++ after).dropWhile blank = core ++ after := by
    rw [List.append_assoc, hcore, List.cons_append, drop_blanks hb hc]
  have hback : (core ++ after).reverse.dropWhile blank = core.reverse := by
    rw [List.reverse_append, hcore', List.reverse_append, List.reverse_singleton,
      List.singleton_append, drop_blanks (fun c hc => ha c (List.mem_reverse.mp hc)) hd]
  rw [trim, hfront, hback, List.reverse_reverse]

theorem digit_not_white {c : Char} {d : Nat} (h : digitValue? c = some d) :
    isWhiteSpace c = false := by
  have hall : ∀ z ∈ digitZeros, ∀ i < 10, isWhiteSpace (Char.ofNat (z + i)) = false := by
    decide +kernel
  obtain ⟨z, hz, -⟩ := Option.map_eq_some_iff.mp h
  have hrange := List.find?_some hz
  simp only [Bool.and_eq_true, decide_eq_true_eq] at hrange
  have hc := hall z (List.mem_of_find?_eq_some hz) (c.toNat - z) (by omega)
  rwa [Nat.add_sub_cancel' hrange.1, Char.ofNat_toNat] at hc

end Text

namespace Integer
open Text

/-- Digits of any script with their values, at most one underscore between two. -/
inductive Digits : List Char → List Nat → Prop
  | last {c : Char} {d : Nat} : digitValue? c = some d → Digits [c] [d]
  | next {c : Char} {d : Nat} {cs : List Char} {ds : List Nat} :
      digitValue? c = some d → Digits cs ds → Digits (c :: cs) (d :: ds)
  | apart {c : Char} {d : Nat} {cs : List Char} {ds : List Nat} :
      digitValue? c = some d → Digits cs ds → Digits (c :: '_' :: cs) (d :: ds)

inductive Sign where
  | none | plus | minus

def Sign.chars : Sign → List Char
  | .none => []
  | .plus => ['+']
  | .minus => ['-']

def Sign.apply (n : Nat) : Sign → Int
  | .minus => -n
  | _ => n

structure Spelled (cs : List Char) (n : Int) where
  before : List Char
  sign : Sign
  body : List Char
  after : List Char
  digits : List Nat
  layout : cs = before ++ (sign.chars ++ body) ++ after
  blank_before : ∀ c ∈ before, isWhiteSpace c
  blank_after : ∀ c ∈ after, isWhiteSpace c
  reads : Digits body digits
  within : digits.length ≤ digitLimit
  value : n = sign.apply (Nat.ofDigits 10 digits.reverse)

def Spells (cs : List Char) (n : Int) : Prop := Nonempty (Spelled cs n)

section Digits
variable {cs : List Char} {ds : List Nat}

theorem Digits.first (h : Digits cs ds) : ∃ c r d, cs = c :: r ∧ digitValue? c = some d := by
  cases h with
  | last hc | next hc _ | apart hc _ => exact ⟨_, _, _, rfl, hc⟩

theorem Digits.final (h : Digits cs ds) : ∃ c r d, cs = r ++ [c] ∧ digitValue? c = some d := by
  induction h with
  | last hc => exact ⟨_, [], _, rfl, hc⟩
  | next _ _ ih =>
    obtain ⟨c, r, d, rfl, hc⟩ := ih
    exact ⟨c, _ :: r, d, rfl, hc⟩
  | apart _ _ ih =>
    obtain ⟨c, r, d, rfl, hc⟩ := ih
    exact ⟨c, _ :: _ :: r, d, rfl, hc⟩

theorem Digits.not_cons {c : Char} {r : List Char} (hc : digitValue? c = none) :
    ¬ Digits (c :: r) ds := by
  intro h
  obtain ⟨b, q, d, hcons, hb⟩ := h.first
  cases hcons
  rw [hc] at hb
  cases hb

theorem digits_of_read (h : digits? cs = some ds) : Digits cs ds := by
  induction cs using digits?.induct generalizing ds with
  | case1 => cases h
  | case2 c =>
    obtain ⟨d, hd, rfl⟩ := Option.map_eq_some_iff.mp h
    exact .last hd
  | case3 c r ih =>
    obtain ⟨d, hd, hr⟩ := Option.bind_eq_some_iff.mp h
    obtain ⟨es, hes, rfl⟩ := Option.map_eq_some_iff.mp hr
    exact .apart hd (ih hes)
  | case4 c r hne hmark ih =>
    rw [digits?.eq_4 c r hne hmark] at h
    obtain ⟨d, hd, hr⟩ := Option.bind_eq_some_iff.mp h
    obtain ⟨es, hes, rfl⟩ := Option.map_eq_some_iff.mp hr
    exact .next hd (ih hes)

theorem read_of_digits (h : Digits cs ds) : digits? cs = some ds := by
  induction h with
  | last hc => rw [digits?, hc, Option.map_some]
  | next hc hrest ih =>
    rw [digits?, hc, ih, Option.bind_some, Option.map_some]
    · rintro rfl
      cases hrest
    · rintro r rfl
      exact Digits.not_cons (by decide) hrest
  | apart hc _ ih => rw [digits?, hc, ih, Option.bind_some, Option.map_some]

theorem digits_iff : digits? cs = some ds ↔ Digits cs ds := ⟨digits_of_read, read_of_digits⟩

theorem of_digits_value (ds : List Nat) : ofDigits ds = Nat.ofDigits 10 ds.reverse := by
  rw [Nat.ofDigits_eq_foldr, List.foldr_reverse, ofDigits]
  congr 1
  funext n d
  exact Nat.add_comm (10 * n) d

theorem magnitude_iff {n : Nat} : magnitude? cs = some n ↔
    ∃ ds, Digits cs ds ∧ ds.length ≤ digitLimit ∧ n = Nat.ofDigits 10 ds.reverse := by
  simp only [magnitude?, Option.bind_eq_some_iff, Option.ite_none_right_eq_some,
    Option.some.injEq, digits_iff, of_digits_value]
  exact exists_congr fun ds => and_congr_right fun _ => and_congr_right fun _ => eq_comm

end Digits

theorem read_trimmed {s : String} {n : Int} : read? s = some n ↔
    ∃ (sign : Sign) (body : List Char) (m : Nat), trim isWhiteSpace s.toList = sign.chars ++ body ∧
      magnitude? body = some m ∧ n = sign.apply m := by
  constructor
  · intro h
    unfold read? at h
    split at h
    · rename_i r hr
      obtain ⟨_, hz, rfl⟩ := Option.map_eq_some_iff.mp h
      obtain ⟨m, hm, hz⟩ := Option.bind_eq_some_iff.mp hz
      cases hz
      exact ⟨.minus, r, m, hr, hm, rfl⟩
    · rename_i r hr
      obtain ⟨m, hm, rfl⟩ := Option.map_eq_some_iff.mp h
      exact ⟨.plus, r, m, hr, hm, rfl⟩
    · obtain ⟨m, hm, rfl⟩ := Option.map_eq_some_iff.mp h
      exact ⟨.none, _, m, rfl, hm, rfl⟩
  · rintro ⟨sign, body, m, htrim, hm, rfl⟩
    have hbody : ∀ r, body ≠ '-' :: r ∧ body ≠ '+' :: r := by
      obtain ⟨ds, hds, -⟩ := magnitude_iff.mp hm
      intro r
      constructor <;> rintro rfl
      · exact Digits.not_cons (by decide) hds
      · exact Digits.not_cons (by decide) hds
    cases sign with
    | minus | plus =>
      rw [read?, htrim]
      simp [Sign.chars, Sign.apply, hm]
    | none =>
      rw [read?, htrim]
      simp only [Sign.chars, List.nil_append]
      split
      · exact absurd rfl (hbody _).1
      · exact absurd rfl (hbody _).2
      · exact congrArg (Option.map _) hm

theorem read_iff (s : String) (n : Int) : read? s = some n ↔ Spells s.toList n := by
  rw [read_trimmed]
  constructor
  · rintro ⟨sign, body, m, htrim, hm, hn⟩
    obtain ⟨ds, hds, hwithin, rfl⟩ := magnitude_iff.mp hm
    obtain ⟨before, after, hsplit, hb, ha⟩ := trim_split isWhiteSpace s.toList
    rw [htrim] at hsplit
    exact ⟨⟨before, sign, body, after, ds, hsplit, hb, ha, hds, hwithin, hn⟩⟩
  · rintro ⟨before, sign, body, after, ds, hlayout, hb, ha, hds, hwithin, hn⟩
    refine ⟨sign, body, _, ?_, magnitude_iff.mpr ⟨ds, hds, hwithin, rfl⟩, hn⟩
    rw [hlayout]
    refine trim_between hb ha ?_ ?_
    · obtain ⟨c, r, d, hbody, hc⟩ := hds.first
      cases sign with
      | none => exact ⟨c, r, hbody, digit_not_white hc⟩
      | plus | minus => exact ⟨_, body, rfl, by decide⟩
    · obtain ⟨c, r, d, hbody, hc⟩ := hds.final
      exact ⟨c, sign.chars ++ r, by rw [hbody, List.append_assoc], digit_not_white hc⟩

end Integer

namespace Binary64

def Equals (x : Binary64) (n : Int) : Prop :=
  ∃ negative magnitude, x = .finite negative magnitude ∧
    (n : ℚ) = if negative then -magnitude.value else magnitude.value

theorem magnitude_value_nonneg (x : Magnitude) : 0 ≤ x.value :=
  mul_nonneg (Nat.cast_nonneg _) (zpow_pos two_pos _).le

theorem to_int_finite (negative : Bool) (x : Magnitude) (n : Int) :
    (finite negative x).toInt? = some n ↔ ∃ m : Nat, x.value = m ∧ signed negative m = n := by
  obtain ⟨hd, hvalue⟩ := x.quotient_value
  have hwhole (m : Nat) : x.value = m ↔ x.quotient.1 = m * x.quotient.2 := by
    rw [← hvalue, div_eq_iff (Nat.cast_ne_zero.mpr hd.ne')]
    exact_mod_cast Iff.rfl
  simp only [toInt?, hwhole, Option.ite_none_right_eq_some, Option.some.injEq]
  constructor
  · rintro ⟨hmod, hn⟩
    exact ⟨_, (Nat.div_mul_cancel (Nat.dvd_of_mod_eq_zero hmod)).symm, hn⟩
  · rintro ⟨m, hm, hn⟩
    rw [hm, Nat.mul_mod_left, Nat.mul_div_left m hd]
    exact ⟨rfl, hn⟩

/-- A number is read as an integer if it is one. -/
theorem to_int_iff (x : Binary64) (n : Int) : x.toInt? = some n ↔ x.Equals n := by
  cases x with
  | nan | infinite _ => simp [toInt?, Equals]
  | finite negative x =>
    have hnonneg := magnitude_value_nonneg x
    rw [to_int_finite]
    constructor
    · rintro ⟨m, hm, rfl⟩
      refine ⟨negative, x, rfl, ?_⟩
      rw [hm]
      cases negative <;> simp [signed]
    · rintro ⟨_, _, heq, hn⟩
      cases heq
      cases negative with
      | false =>
        rw [if_neg Bool.false_ne_true] at hn
        obtain ⟨m, rfl⟩ := Int.eq_ofNat_of_zero_le (a := n) (by exact_mod_cast hn ▸ hnonneg)
        exact ⟨m, by exact_mod_cast hn.symm, rfl⟩
      | true =>
        rw [if_pos rfl, eq_neg_iff_add_eq_zero] at hn
        have hn0 : n ≤ 0 := by
          have : (n : ℚ) ≤ 0 := by linarith
          exact_mod_cast this
        obtain ⟨m, rfl⟩ := Int.exists_eq_neg_ofNat hn0
        refine ⟨m, ?_, rfl⟩
        push_cast at hn
        linarith

end Binary64

end QueryTelemetry
