import QueryTelemetry.Proofs.Documents
import QueryTelemetry.Proofs.Legible

/-!
# What the reader lets in

A document that was read can be written: no object in it has two members of one name, it nests no
deeper than the reader follows, and its integers were short enough to be read.
-/

set_option autoImplicit false

namespace QueryTelemetry

namespace Assoc
variable {κ ν : Type} [DecidableEq κ]

theorem keys_of_pairs_nodup (ps : List (κ × ν)) : (keys (ofPairs ps)).Nodup :=
  put_all_nodup Prod.fst Prod.snd ps List.nodup_nil

theorem mem_of_pairs {ps : List (κ × ν)} {p : κ × ν} (h : p ∈ ofPairs ps) : p ∈ ps := by
  induction ps using List.reverseRecOn with
  | nil => exact h
  | append_singleton ps q ih =>
    rw [ofPairs, List.foldl_append] at h
    rcases mem_put h with h | rfl
    · exact List.mem_append_left [q] (ih h)
    · exact List.mem_append_right ps (List.mem_singleton_self _)

end Assoc

namespace Numeral

theorem digit_value_below {c : Char} (h : isDigit c) : c.toNat - '0'.toNat < 10 := by
  simp only [isDigit, Bool.and_eq_true, decide_eq_true_eq, Char.le_def,
    UInt32.le_iff_toNat_le] at h
  have hnine : '9'.val.toNat = 57 := rfl
  have hzero : '0'.toNat = 48 := rfl
  have hc : c.toNat = c.val.toNat := rfl
  omega

theorem to_nat_below {ds : List Char} (h : ∀ c ∈ ds, isDigit c) : toNat ds < 10 ^ ds.length := by
  induction ds using List.reverseRecOn with
  | nil => decide
  | append_singleton ds c ih =>
    have hds := ih fun d hd => h d (List.mem_append_left [c] hd)
    have hc := digit_value_below (h c (List.mem_append_right ds (List.mem_singleton_self c)))
    have hlast : toNat (ds ++ [c]) = 10 * toNat ds + (c.toNat - '0'.toNat) := by
      rw [toNat, Nat.ofDigitChars_append]
      rfl
    rw [hlast, List.length_append, List.length_singleton, Nat.pow_succ]
    omega

theorem digit_of_whole {cs ds r : List Char} (h : scanWhole? cs = some (ds, r)) :
    ∀ c ∈ ds, isDigit c := by
  unfold scanWhole? at h
  split at h
  · cases h
    simp [isDigit]
  · split at h
    · cases h
    · have hspan : (spanDigits _).1 = ds := congrArg Prod.fst (Option.some.inj h)
      intro c hc
      rw [← hspan] at hc
      exact List.all_eq_true.mp List.all_takeWhile c hc

theorem digit_of_scan {cs r : List Char} {x : Numeral} (h : scan? cs = some (x, r)) :
    ∀ c ∈ x.whole, isDigit c := by
  have hunsigned {negative : Bool} {cs : List Char}
      (h : scanUnsigned? negative cs = some (x, r)) : ∀ c ∈ x.whole, isDigit c := by
    obtain ⟨⟨whole, rest⟩, hwhole, hx⟩ := Option.map_eq_some_iff.mp h
    dsimp only at hx
    split at hx
    · cases hx
      exact digit_of_whole hwhole
    · cases hx
      exact digit_of_whole hwhole
  unfold scan? at h
  split at h
  · exact hunsigned h
  · exact hunsigned h

theorem to_int_below {x : Numeral} (h : ∀ c ∈ x.whole, isDigit c) :
    x.toInt.natAbs < 10 ^ x.whole.length := by
  have hbelow := to_nat_below h
  rw [toInt]
  split
  · rwa [Int.natAbs_neg, Int.natAbs_natCast]
  · rwa [Int.natAbs_natCast]

end Numeral

namespace Json

theorem number_sound {cs r : List Char} {v : Json} (h : number cs = .ok (v, r)) (room : Nat) :
    v.Sound room := by
  unfold number at h
  split at h
  · cases h
  · rename_i x r hscan
    split at h
    · cases h
      exact sound_float _ room
    · split at h
      · rename_i hshort
        cases h
        have hceiling : 10 ^ x.whole.length ≤ Integer.ceiling := by
          delta Integer.ceiling
          generalize Integer.digitLimit = limit at hshort
          exact Nat.pow_le_pow_right (by decide) hshort
        have hbelow := Numeral.to_int_below (Numeral.digit_of_scan hscan)
        exact sound_int (hbelow.trans_le hceiling) room
      · cases h

structure ReadsSound (fuel : Nat) : Prop where
  value : ∀ {room : Nat} {cs r : List Char} {v : Json}, value fuel room cs = .ok (v, r) →
    v.Sound room
  items : ∀ {room : Nat} {cs r : List Char} {vs : List Json}, items fuel room cs = .ok (vs, r) →
    ∀ v ∈ vs, v.Sound room
  members : ∀ {room : Nat} {cs r : List Char} {ms : List (Utf16 × Json)},
    members fuel room cs = .ok (ms, r) → ∀ p ∈ ms, p.2.Sound room

namespace ReadsSound
variable {fuel room : Nat} {cs r : List Char}

theorem value_next (h : ReadsSound fuel) {v : Json}
    (hv : Json.value (fuel + 1) room cs = .ok (v, r)) : v.Sound room := by
  unfold Json.value at hv
  split at hv
  · cases hv
  · obtain ⟨⟨s, rest⟩, -, hv⟩ := bind_ok_iff.mp hv
    cases hv
    exact sound_atom rfl (by simp [integers, Payload.AllShort]) _
  · cases hv
  · cases hv
  · rename_i f room rest hfuel
    cases hfuel
    split at hv
    · cases hv
      exact (sound_arr_iff [] room).mpr fun v hv => absurd hv List.not_mem_nil
    · obtain ⟨⟨vs, rest⟩, hvs, hv⟩ := bind_ok_iff.mp hv
      cases hv
      exact (sound_arr_iff vs room).mpr (h.items hvs)
  · rename_i f room rest hfuel
    cases hfuel
    split at hv
    · cases hv
      exact (sound_obj_iff [] room).mpr ⟨List.nodup_nil, fun p hp => absurd hp List.not_mem_nil⟩
    · obtain ⟨⟨ms, rest⟩, hms, hv⟩ := bind_ok_iff.mp hv
      cases hv
      exact (sound_obj_iff _ room).mpr ⟨Assoc.keys_of_pairs_nodup ms,
        fun p hp => h.members hms p (Assoc.mem_of_pairs hp)⟩
  · cases hv
    exact sound_atom rfl (by simp [integers, Payload.AllShort]) _
  · cases hv
    exact sound_bool true _
  · cases hv
    exact sound_bool false _
  · cases hv
    exact sound_float .nan _
  · cases hv
    exact sound_float (.infinite false) _
  · cases hv
    exact sound_float (.infinite true) _
  · exact number_sound hv _

theorem items_next (h : ReadsSound fuel) {vs : List Json}
    (hvs : Json.items (fuel + 1) room cs = .ok (vs, r)) : ∀ v ∈ vs, v.Sound room := by
  rw [Json.items, bind_ok_iff] at hvs
  obtain ⟨⟨v, rest⟩, hv, hvs⟩ := hvs
  have hfirst := h.value hv
  dsimp only at hvs
  split at hvs
  · cases hvs
    intro w hw
    rw [List.mem_singleton.mp hw]
    exact hfirst
  · obtain ⟨⟨later, rest⟩, hlater, hvs⟩ := bind_ok_iff.mp hvs
    cases hvs
    exact List.forall_mem_cons.mpr ⟨hfirst, h.items hlater⟩
  · cases hvs

theorem members_next (h : ReadsSound fuel) {ms : List (Utf16 × Json)}
    (hms : Json.members (fuel + 1) room cs = .ok (ms, r)) : ∀ p ∈ ms, p.2.Sound room := by
  unfold Json.members at hms
  split at hms
  · cases hms
  · rename_i f cs hfuel
    cases hfuel
    obtain ⟨⟨k, rest⟩, -, hms⟩ := bind_ok_iff.mp hms
    dsimp only at hms
    split at hms
    · obtain ⟨⟨v, rest⟩, hv, hms⟩ := bind_ok_iff.mp hms
      have hfirst := h.value hv
      dsimp only at hms
      split at hms
      · cases hms
        intro p hp
        rw [List.mem_singleton.mp hp]
        exact hfirst
      · obtain ⟨⟨later, rest⟩, hlater, hms⟩ := bind_ok_iff.mp hms
        cases hms
        exact List.forall_mem_cons.mpr ⟨hfirst, h.members hlater⟩
      · cases hms
    · cases hms
  · cases hms

end ReadsSound

theorem reads_sound (fuel : Nat) : ReadsSound fuel := by
  induction fuel with
  | zero =>
    constructor <;>
    · intro _ _ _ _ h
      cases h
  | succ fuel ih => exact ⟨ih.value_next, ih.items_next, ih.members_next⟩

theorem parse_sound {room : Nat} {text : String} {v : Json} (h : parse room text = .ok v) :
    v.Sound room := by
  rw [parse, bind_ok_iff] at h
  obtain ⟨⟨w, rest⟩, hw, h⟩ := h
  dsimp only at h
  split at h
  · cases h
    exact (reads_sound _).value hw
  · cases h

end Json

end QueryTelemetry
