import QueryTelemetry.Proofs.Escapes
import QueryTelemetry.Proofs.Printing
import QueryTelemetry.Proofs.Spelling

/-!
# Documents, read back

What was printed to its end and nests no deeper than the reader follows is read as the same
document, with the members of every object in their order, as long as no object has two members of
one name.
-/

set_option autoImplicit false

namespace QueryTelemetry

namespace Assoc
variable {κ ν : Type} [DecidableEq κ]

theorem put_all_nodup {α : Type} (key : α → κ) (value : α → ν) (xs : List α)
    {m : Assoc κ ν} (h : m.keys.Nodup) :
    (keys (xs.foldl (fun m x => m.put (key x) (value x)) m)).Nodup := by
  induction xs generalizing m with
  | nil => exact h
  | cons x xs ih => exact ih (keys_nodup_update h _ _)

theorem mem_put {m : Assoc κ ν} {k : κ} {v : ν} {p : κ × ν}
    (h : p ∈ m.put k v) : p ∈ m ∨ p = (k, v) := by
  induction m with
  | nil => exact Or.inr (List.mem_singleton.mp h)
  | cons q r ih =>
    rw [put, update] at h
    split at h
    · rename_i hq
      rcases List.mem_cons.mp h with rfl | h
      · exact Or.inr (by rw [← hq])
      · exact Or.inl (List.mem_cons_of_mem q h)
    · rcases List.mem_cons.mp h with rfl | h
      · exact Or.inl List.mem_cons_self
      · exact (ih h).imp_left (List.mem_cons_of_mem q)

theorem of_pairs_nodup {m : Assoc κ ν} (h : (keys m).Nodup) : ofPairs m = m := by
  have hfold : ∀ ps done : Assoc κ ν, (keys (done ++ ps)).Nodup →
      ps.foldl (fun m p => put m p.1 p.2) done = done ++ ps := by
    intro ps
    induction ps with
    | nil => simp
    | cons p ps ih =>
      intro done hd
      rw [List.append_cons] at hd
      have hnew : p.1 ∉ keys done := by
        rw [keys, List.map_append, List.map_append] at hd
        have hpair := (List.nodup_append.mp (List.nodup_append.mp hd).1).2.2
        exact fun hmem => hpair p.1 hmem p.1 (List.mem_singleton_self _) rfl
      rw [List.foldl_cons, put, update_new done hnew, ih _ hd, ← List.append_cons]
  exact hfold m [] h

end Assoc

namespace Json
open Payload (AllShort all_short_append)

mutual

def Keyed : Json → Prop
  | .arr items => ItemsKeyed items
  | .obj members => (members.map Prod.fst).Nodup ∧ MembersKeyed members
  | _ => True

def ItemsKeyed : List Json → Prop
  | [] => True
  | v :: r => Keyed v ∧ ItemsKeyed r

def MembersKeyed : List (Utf16 × Json) → Prop
  | [] => True
  | (_, v) :: r => Keyed v ∧ MembersKeyed r

end

mutual

def nesting : Json → Nat
  | .arr items => itemNesting items + 1
  | .obj members => memberNesting members + 1
  | _ => 0

def itemNesting : List Json → Nat
  | [] => 0
  | v :: r => max (nesting v) (itemNesting r)

def memberNesting : List (Utf16 × Json) → Nat
  | [] => 0
  | (_, v) :: r => max (nesting v) (memberNesting r)

end

theorem items_short_iff (vs : List Json) :
    AllShort (itemIntegers vs) ↔ ∀ v ∈ vs, AllShort v.integers := by
  induction vs with
  | nil => simp [itemIntegers, AllShort]
  | cons v r ih => rw [itemIntegers, all_short_append, ih, List.forall_mem_cons]

theorem items_keyed_iff (vs : List Json) : ItemsKeyed vs ↔ ∀ v ∈ vs, v.Keyed := by
  induction vs with
  | nil => simp [ItemsKeyed]
  | cons v r ih => rw [ItemsKeyed, ih, List.forall_mem_cons]

theorem item_nesting_le_iff (vs : List Json) (n : Nat) :
    itemNesting vs ≤ n ↔ ∀ v ∈ vs, v.nesting ≤ n := by
  induction vs with
  | nil => simp [itemNesting]
  | cons v r ih => rw [itemNesting, max_le_iff, ih, List.forall_mem_cons]

theorem members_short_iff (ms : List (Utf16 × Json)) :
    AllShort (memberIntegers ms) ↔ ∀ p ∈ ms, AllShort p.2.integers := by
  induction ms with
  | nil => simp [memberIntegers, AllShort]
  | cons p r ih => rw [memberIntegers, all_short_append, ih, List.forall_mem_cons]

theorem members_keyed_iff (ms : List (Utf16 × Json)) : MembersKeyed ms ↔ ∀ p ∈ ms, p.2.Keyed := by
  induction ms with
  | nil => simp [MembersKeyed]
  | cons p r ih => rw [MembersKeyed, ih, List.forall_mem_cons]

theorem member_nesting_le_iff (ms : List (Utf16 × Json)) (n : Nat) :
    memberNesting ms ≤ n ↔ ∀ p ∈ ms, p.2.nesting ≤ n := by
  induction ms with
  | nil => simp [memberNesting]
  | cons p r ih => rw [memberNesting, max_le_iff, ih, List.forall_mem_cons]

structure Shaped (room : Nat) (v : Json) : Prop where
  keyed : v.Keyed
  nesting : v.nesting ≤ room

theorem shaped_arr_iff (vs : List Json) (room : Nat) :
    (arr vs).Shaped (room + 1) ↔ ∀ v ∈ vs, v.Shaped room := by
  constructor
  · intro h v hv
    exact ⟨(items_keyed_iff vs).mp h.keyed v hv,
      (item_nesting_le_iff vs room).mp (Nat.le_of_succ_le_succ h.nesting) v hv⟩
  · intro h
    exact ⟨(items_keyed_iff vs).mpr fun v hv => (h v hv).keyed,
      Nat.succ_le_succ ((item_nesting_le_iff vs room).mpr fun v hv => (h v hv).nesting)⟩

theorem shaped_obj_iff (ms : List (Utf16 × Json)) (room : Nat) :
    (obj ms).Shaped (room + 1) ↔ (ms.map Prod.fst).Nodup ∧ ∀ p ∈ ms, p.2.Shaped room := by
  constructor
  · intro h
    refine ⟨h.keyed.1, fun p hp => ?_⟩
    exact ⟨(members_keyed_iff ms).mp h.keyed.2 p hp,
      (member_nesting_le_iff ms room).mp (Nat.le_of_succ_le_succ h.nesting) p hp⟩
  · intro h
    exact ⟨⟨h.1, (members_keyed_iff ms).mpr fun p hp => (h.2 p hp).keyed⟩,
      Nat.succ_le_succ ((member_nesting_le_iff ms room).mpr fun p hp => (h.2 p hp).nesting)⟩

theorem Shaped.mono {m n : Nat} {v : Json} (h : v.Shaped m) (hmn : m ≤ n) : v.Shaped n :=
  ⟨h.keyed, h.nesting.trans hmn⟩

structure Sound (room : Nat) (v : Json) : Prop extends Shaped room v where
  short : AllShort v.integers

theorem Sound.mono {m n : Nat} {v : Json} (h : v.Sound m) (hmn : m ≤ n) : v.Sound n :=
  ⟨h.toShaped.mono hmn, h.short⟩

theorem sound_arr_iff (vs : List Json) (room : Nat) :
    (arr vs).Sound (room + 1) ↔ ∀ v ∈ vs, v.Sound room := by
  constructor
  · intro h v hv
    exact ⟨(shaped_arr_iff vs room).mp h.toShaped v hv, (items_short_iff vs).mp h.short v hv⟩
  · intro h
    exact ⟨(shaped_arr_iff vs room).mpr fun v hv => (h v hv).toShaped,
      (items_short_iff vs).mpr fun v hv => (h v hv).short⟩

theorem sound_obj_iff (ms : List (Utf16 × Json)) (room : Nat) :
    (obj ms).Sound (room + 1) ↔ (ms.map Prod.fst).Nodup ∧ ∀ p ∈ ms, p.2.Sound room := by
  constructor
  · intro h
    obtain ⟨hkeys, hall⟩ := (shaped_obj_iff ms room).mp h.toShaped
    exact ⟨hkeys, fun p hp => ⟨hall p hp, (members_short_iff ms).mp h.short p hp⟩⟩
  · intro h
    exact ⟨(shaped_obj_iff ms room).mpr ⟨h.1, fun p hp => (h.2 p hp).toShaped⟩,
      (members_short_iff ms).mpr fun p hp => (h.2 p hp).short⟩

theorem shaped_atom {v : Json} (h : v.nesting = 0) (room : Nat) : v.Shaped room := by
  cases v with
  | arr vs => cases h
  | obj ms => cases h
  | null | bool _ | int _ | float _ | str _ => exact ⟨trivial, Nat.zero_le room⟩

/-- Texts that differ are keys that differ. -/
theorem shaped_of_pairs {members : List (String × Json)} {room : Nat}
    (hk : (members.map Prod.fst).Nodup) (hv : ∀ p ∈ members, p.2.Shaped room) :
    (ofPairs members).Shaped (room + 1) := by
  apply (shaped_obj_iff _ room).mpr
  constructor
  · have hkeys := hk.map Utf16.of_string_injective
    rw [List.map_map] at hkeys ⊢
    exact hkeys
  · intro q hq
    obtain ⟨p, hp, rfl⟩ := List.mem_map.mp hq
    exact hv p hp

theorem sound_atom {v : Json} (h : v.nesting = 0) (hs : AllShort v.integers) (room : Nat) :
    v.Sound room :=
  ⟨shaped_atom h room, hs⟩

theorem sound_int {n : Int} (h : n.natAbs < Integer.ceiling) (room : Nat) : (int n).Sound room :=
  sound_atom (v := int n) rfl ((all_short_one n).mpr h) room

theorem sound_nat {n : Nat} (h : n < Integer.ceiling) (room : Nat) : (int n).Sound room :=
  sound_int (by rwa [Int.natAbs_natCast]) room

theorem sound_text (s : String) (room : Nat) : (text s).Sound room :=
  sound_atom rfl (by simp [text, integers, AllShort]) room

theorem sound_bool (b : Bool) (room : Nat) : (bool b).Sound room :=
  sound_atom rfl (by simp [integers, AllShort]) room

theorem sound_float (x : Binary64) (room : Nat) : (float x).Sound room :=
  sound_atom rfl (by simp [integers, AllShort]) room

theorem sound_of_pairs {members : List (String × Json)} {room : Nat}
    (hk : (members.map Prod.fst).Nodup) (hv : ∀ p ∈ members, p.2.Sound room) :
    (ofPairs members).Sound (room + 1) := by
  refine ⟨shaped_of_pairs hk fun p hp => (hv p hp).toShaped, (members_short_iff _).mpr ?_⟩
  intro q hq
  obtain ⟨p, hp, rfl⟩ := List.mem_map.mp hq
  exact (hv p hp).short

theorem skip_solid {c : Char} (h : isSpace c = false) (cs : List Char) : skip (c :: cs) = c :: cs :=
  List.dropWhile_cons_of_neg (by simp [h])

def Spaced (bs : List Char) : Prop := ∀ c ∈ bs, isSpace c

theorem Spaced.skipped {bs : List Char} (h : Spaced bs) (cs : List Char) :
    skip (bs ++ cs) = skip cs :=
  List.dropWhile_append_of_pos h

theorem spaced_newline (depth : Nat) : Spaced (newline depth) := by
  intro c hc
  rcases List.mem_cons.mp hc with rfl | hc
  · rfl
  · rw [(List.mem_replicate.mp hc).2]
    rfl

theorem spaced_gap : Spaced [' '] := by
  intro c hc
  rw [List.mem_singleton.mp hc]
  rfl

theorem string_chars_append (s : Utf16) (r : List Char) :
    stringChars s ++ r = '"' :: (s.flatMap escapeUnit ++ '"' :: r) := by
  rw [stringChars, List.append_assoc]
  rfl

theorem value_string (fuel room : Nat) (s : Utf16) (r : List Char) :
    value (fuel + 1) room (stringChars s ++ r) = .ok (.str s, r) := by
  rw [string_chars_append, value.eq_2, string_escaped]
  rfl

def Opens (cs : List Char) : Prop :=
  ∃ c r, cs = c :: r ∧ isSpace c = false ∧ c ≠ ']' ∧ c ≠ '\x7d'

theorem Opens.skipped {cs : List Char} (h : Opens cs) : skip cs = cs := by
  obtain ⟨c, r, rfl, hc, -⟩ := h
  exact skip_solid hc r

theorem opens_number (negative : Bool) {d : Char} (hd : Numeral.isDigit d) (r : List Char) :
    Opens (Binary64.sign negative ++ d :: r) := by
  cases negative with
  | true => exact ⟨'-', d :: r, rfl, by decide⟩
  | false =>
    refine ⟨d, r, rfl, ?_, ?_, ?_⟩
    · have hspace : ∀ c, isSpace c → Numeral.isDigit c = false := by
        intro c hc
        simp only [isSpace, Bool.or_eq_true, decide_eq_true_eq] at hc
        rcases hc with ((rfl | rfl) | rfl) | rfl <;> rfl
      by_contra hs
      rw [hspace d (Bool.eq_true_of_not_eq_false hs)] at hd
      cases hd
    · rintro rfl
      cases hd
    · rintro rfl
      cases hd

theorem opens_integer {n : Int} (r : List Char) :
    Opens (Integer.signed n (Nat.toDigits 10 n.natAbs) ++ r) := by
  obtain ⟨d, ds, hds⟩ := List.exists_cons_of_ne_nil (digits_of_nat n.natAbs).nonempty
  have hd : Numeral.isDigit d := (digits_of_nat n.natAbs).digit d (hds ▸ List.mem_cons_self)
  rw [integer_signed, hds, List.append_assoc]
  exact opens_number _ hd (ds ++ r)

theorem opens_float (x : Binary64) (r : List Char) : Opens (floatChars x ++ r) := by
  match x with
  | .nan => exact ⟨'N', 'a' :: 'N' :: r, rfl, by decide⟩
  | .infinite false => exact ⟨'I', _, rfl, by decide⟩
  | .infinite true => exact ⟨'-', _, rfl, by decide⟩
  | .finite negative x =>
    obtain ⟨t, hscan, -⟩ := scan_magnitude negative x ends_nil
    obtain ⟨d, cs, hcs, hd⟩ := scan_unsigned_head hscan
    rw [List.append_nil] at hcs
    have hchars : floatChars (.finite negative x) ++ r =
        Binary64.sign negative ++ d :: (cs ++ r) := by
      rw [← List.cons_append, ← hcs, ← List.append_assoc]
      rfl
    rw [hchars]
    exact opens_number negative hd (cs ++ r)

theorem opens_lines {v : Json} (hv : AllShort v.integers) (depth : Nat) (k : Printed) :
    Opens (lines depth v k).chars := by
  match v with
  | .null => exact ⟨'n', _, rfl, by decide⟩
  | .bool true => exact ⟨'t', _, rfl, by decide⟩
  | .bool false => exact ⟨'f', _, rfl, by decide⟩
  | .int n =>
    rw [lines, integer_chars hv]
    exact opens_integer k.chars
  | .float x => exact opens_float x k.chars
  | .str s => exact ⟨'"', _, rfl, by decide⟩
  | .arr [] => exact ⟨'[', _, rfl, by decide⟩
  | .arr (w :: r) =>
    rw [integers, itemIntegers, all_short_append] at hv
    rw [lines, item_lines_cons hv.1]
    · exact ⟨'[', _, rfl, by decide⟩
    · exact List.cons_ne_nil w r
  | .obj [] => exact ⟨'\x7b', _, rfl, by decide⟩
  | .obj ((key, w) :: r) =>
    rw [lines, memberLines]
    · exact ⟨'\x7b', _, rfl, by decide⟩
    · exact List.cons_ne_nil _ r

/-! One step of the reader per lemma, from what is read next. -/

section Steps
variable {fuel room : Nat} {v : Json} {vs : List Json} {s : Utf16} {ms : List (Utf16 × Json)}
  {bs gap cs ds es : List Char}

theorem value_arr (hb : Spaced bs) (ho : Opens cs) (h : items fuel room cs = .ok (vs, ds)) :
    value (fuel + 1) (room + 1) ('[' :: (bs ++ cs)) = .ok (.arr vs, ds) := by
  rw [value.eq_5, hb.skipped, ho.skipped]
  obtain ⟨c, r, rfl, -, hne, -⟩ := ho
  split
  · rename_i hr
    exact absurd (List.cons.inj hr).1 hne
  · rw [h]
    rfl

theorem value_obj (hb : Spaced bs) (ho : Opens cs) (hk : (ms.map Prod.fst).Nodup)
    (h : members fuel room cs = .ok (ms, ds)) :
    value (fuel + 1) (room + 1) ('\x7b' :: (bs ++ cs)) = .ok (.obj ms, ds) := by
  rw [value.eq_6, hb.skipped, ho.skipped]
  obtain ⟨c, r, rfl, -, -, hne⟩ := ho
  split
  · rename_i hr
    exact absurd (List.cons.inj hr).1 hne
  · rw [h]
    simp only [bind, Except.bind, pure, Except.pure, Assoc.of_pairs_nodup hk]

theorem items_last (hb : Spaced bs) (h : value fuel room cs = .ok (v, bs ++ ']' :: ds)) :
    items (fuel + 1) room cs = .ok ([v], ds) := by
  rw [items.eq_2, h]
  simp only [bind, Except.bind, hb.skipped, skip_solid (c := ']') rfl]
  rfl

theorem items_next (hb : Spaced bs) (h : value fuel room cs = .ok (v, ',' :: (bs ++ ds)))
    (ho : Opens ds) (hr : items fuel room ds = .ok (vs, es)) :
    items (fuel + 1) room cs = .ok (v :: vs, es) := by
  rw [items.eq_2, h]
  simp only [bind, Except.bind, skip_solid (c := ',') rfl, hb.skipped, ho.skipped, hr]
  rfl

theorem members_last (hg : Spaced gap) (hb : Spaced bs) (ho : Opens cs)
    (h : value fuel room cs = .ok (v, bs ++ '\x7d' :: ds)) :
    members (fuel + 1) room (stringChars s ++ (':' :: (gap ++ cs))) = .ok ([(s, v)], ds) := by
  rw [string_chars_append, members.eq_2, string_escaped]
  simp only [bind, Except.bind, skip_solid (c := ':') rfl, hg.skipped, ho.skipped, h, hb.skipped,
    skip_solid (c := '\x7d') rfl]
  rfl

theorem members_next (hg : Spaced gap) (hb : Spaced bs) (ho : Opens cs)
    (h : value fuel room cs = .ok (v, ',' :: (bs ++ ds))) (hd : Opens ds)
    (hr : members fuel room ds = .ok (ms, es)) :
    members (fuel + 1) room (stringChars s ++ (':' :: (gap ++ cs))) = .ok ((s, v) :: ms, es) := by
  rw [string_chars_append, members.eq_2, string_escaped]
  simp only [bind, Except.bind, skip_solid (c := ':') rfl, hg.skipped, ho.skipped, h,
    skip_solid (c := ',') rfl, hb.skipped, hd.skipped, hr]
  rfl

end Steps

theorem ends_closing (depth : Nat) (bracket : Char) (k : Printed) :
    Ends (closing depth bracket k).chars := ends_cons (by decide) _

theorem opens_items {vs : List Json} (hne : vs ≠ []) (hv : ∀ v ∈ vs, AllShort v.integers)
    (depth : Nat) (k : Printed) : Opens (itemLines depth [] vs k).chars := by
  cases vs with
  | nil => exact absurd rfl hne
  | cons v r =>
    have hv := hv v List.mem_cons_self
    rw [item_lines_cons hv]
    exact opens_lines hv depth _

theorem opens_members {ms : List (Utf16 × Json)} (hne : ms ≠ []) (depth : Nat) (k : Printed) :
    Opens (memberLines depth [] ms k).chars := by
  cases ms with
  | nil => exact absurd rfl hne
  | cons p r => exact ⟨'"', _, rfl, by decide⟩

mutual

/-- The room for nesting and the length of the text are enough, and what follows is left. -/
theorem value_lines : ∀ (v : Json) (depth fuel room : Nat) (k : Printed),
    v.Sound room → Ends k.chars → (lines depth v k).chars.length ≤ fuel →
    value (fuel + 1) room (lines depth v k).chars = .ok (v, k.chars)
  | .null, depth, fuel, room, k => fun _ _ _ => value.eq_7 room fuel k.chars
  | .bool true, depth, fuel, room, k => fun _ _ _ => value.eq_8 room fuel k.chars
  | .bool false, depth, fuel, room, k => fun _ _ _ => value.eq_9 room fuel k.chars
  | .int n, depth, fuel, room, k => by
    intro hv hk _
    rw [lines, integer_chars hv.short, Printed.after?, after_chars]
    exact value_integer fuel room ((all_short_one n).mp hv.short) hk
  | .float x, depth, fuel, room, k => fun _ hk _ => value_float fuel room x hk
  | .str s, depth, fuel, room, k => fun _ _ _ => value_string fuel room s k.chars
  | .arr _, depth, fuel, 0, k => fun hv _ _ => absurd hv.nesting (Nat.not_succ_le_zero _)
  | .obj _, depth, fuel, 0, k => fun hv _ _ => absurd hv.nesting (Nat.not_succ_le_zero _)
  | .arr [], depth, fuel, room + 1, k => fun _ _ _ => value.eq_5 fuel room (']' :: k.chars)
  | .obj [], depth, fuel, room + 1, k => fun _ _ _ => value.eq_6 fuel room ('\x7d' :: k.chars)
  | .arr (v :: r), depth, fuel, room + 1, k => by
    intro hv hk hf
    have hne := List.cons_ne_nil v r
    have hall := (sound_arr_iff (v :: r) room).mp hv
    have hshort : ∀ w ∈ v :: r, AllShort w.integers := fun w hw => (hall w hw).short
    rw [lines_arr hne, item_lines_separator hne hshort] at hf ⊢
    rw [List.length_append, List.length_cons, newline, List.length_cons] at hf
    -- the bracket and the line break pay for the first item and for the list that it begins
    obtain ⟨f, rfl⟩ := Nat.exists_eq_add_of_le' (m := 2) (n := fuel) (by omega)
    exact value_arr (spaced_newline _) (opens_items hne hshort _ _)
      (items_lines (v :: r) (depth + 1) depth f room k hne hall (by omega))
  | .obj (p :: r), depth, fuel, room + 1, k => by
    intro hv hk hf
    have hne := List.cons_ne_nil p r
    obtain ⟨hkeys, hall⟩ := (sound_obj_iff (p :: r) room).mp hv
    rw [lines_obj hne, member_lines_separator hne] at hf ⊢
    rw [List.length_append, List.length_cons, newline, List.length_cons] at hf
    obtain ⟨f, rfl⟩ := Nat.exists_eq_add_of_le' (m := 2) (n := fuel) (by omega)
    exact value_obj (spaced_newline _) (opens_members hne _ _) hkeys
      (members_lines (p :: r) (depth + 1) depth f room k hne hall (by omega))

theorem items_lines : ∀ (vs : List Json) (depth outer fuel room : Nat) (k : Printed),
    vs ≠ [] → (∀ v ∈ vs, v.Sound room) →
    (itemLines depth [] vs (closing outer ']' k)).chars.length ≤ fuel →
    items (fuel + 2) room (itemLines depth [] vs (closing outer ']' k)).chars = .ok (vs, k.chars)
  | [], _, _, _, _, _ => fun hne _ _ => absurd rfl hne
  | [v], depth, outer, fuel, room, k => by
    intro _ hv hf
    have hv := hv v List.mem_cons_self
    rw [item_lines_cons hv.short, after_chars, List.nil_append, itemLines] at hf ⊢
    have hvalue := value_lines v depth fuel room _ hv (ends_closing outer ']' k) hf
    rw [closing_chars] at hvalue
    exact items_last (spaced_newline _) hvalue
  | v :: w :: r, depth, outer, fuel, room, k => by
    intro _ hv hf
    have hne := List.cons_ne_nil w r
    have hrest : ∀ u ∈ w :: r, u.Sound room := fun u hu => hv u (List.mem_cons_of_mem v hu)
    have hshort : ∀ u ∈ w :: r, AllShort u.integers := fun u hu => (hrest u hu).short
    have hv := hv v List.mem_cons_self
    have hnext := item_lines_separator hne hshort depth (',' :: newline depth) (closing outer ']' k)
    rw [item_lines_cons hv.short, after_chars, List.nil_append] at hf ⊢
    have hends : Ends (itemLines depth (',' :: newline depth) (w :: r)
        (closing outer ']' k)).chars := by
      rw [hnext]
      exact ends_cons (by decide) _
    have hvalue := value_lines v depth fuel room _ hv hends hf
    rw [lines_chars hv.short, hnext] at hf
    simp only [List.length_append, List.length_cons] at hf
    obtain ⟨f, rfl⟩ := Nat.exists_eq_add_of_le' (m := 1) (n := fuel) (by omega)
    rw [hnext] at hvalue
    exact items_next (spaced_newline _) hvalue (opens_items hne hshort _ _)
      (items_lines (w :: r) depth outer f room k hne hrest (by omega))

theorem members_lines : ∀ (ms : List (Utf16 × Json)) (depth outer fuel room : Nat) (k : Printed),
    ms ≠ [] → (∀ p ∈ ms, p.2.Sound room) →
    (memberLines depth [] ms (closing outer '\x7d' k)).chars.length ≤ fuel →
    members (fuel + 2) room (memberLines depth [] ms (closing outer '\x7d' k)).chars =
      .ok (ms, k.chars)
  | [], _, _, _, _, _ => fun hne _ _ => absurd rfl hne
  | [(key, v)], depth, outer, fuel, room, k => by
    intro _ hv hf
    have hv := hv (key, v) List.mem_cons_self
    rw [member_lines_cons, memberLines] at hf ⊢
    rw [List.length_append, List.length_cons, List.length_cons] at hf
    have hvalue := value_lines v depth fuel room _ hv (ends_closing outer '\x7d' k) (by omega)
    rw [closing_chars] at hvalue
    exact members_last spaced_gap (spaced_newline _) (opens_lines hv.short depth _) hvalue
  | (key, v) :: q :: r, depth, outer, fuel, room, k => by
    intro _ hv hf
    have hne := List.cons_ne_nil q r
    have hrest : ∀ p ∈ q :: r, p.2.Sound room := fun p hp => hv p (List.mem_cons_of_mem _ hp)
    have hv := hv (key, v) List.mem_cons_self
    have hnext := member_lines_separator hne depth (',' :: newline depth) (closing outer '\x7d' k)
    rw [member_lines_cons] at hf ⊢
    rw [List.length_append, List.length_cons, List.length_cons] at hf
    have hends : Ends (memberLines depth (',' :: newline depth) (q :: r)
        (closing outer '\x7d' k)).chars := by
      rw [hnext]
      exact ends_cons (by decide) _
    have hvalue := value_lines v depth fuel room _ hv hends (by omega)
    rw [lines_chars hv.short, hnext] at hf
    simp only [List.length_append, List.length_cons] at hf
    obtain ⟨f, rfl⟩ := Nat.exists_eq_add_of_le' (m := 1) (n := fuel) (by omega)
    rw [hnext] at hvalue
    exact members_next spaced_gap (spaced_newline _) (opens_lines hv.short depth _) hvalue
      (opens_members hne _ _)
      (members_lines (q :: r) depth outer f room k hne hrest (by omega))

end

/-- A document that fits the reader is read as it was printed. -/
theorem parse_pretty {v : Json} {room : Nat} (h : v.Sound room) :
    parse room v.pretty.text = .ok v := by
  have hopens : Opens v.pretty.chars := opens_lines h.short 0 _
  have hvalue : value (v.pretty.chars.length + 1) room v.pretty.chars = .ok (v, []) :=
    value_lines v 0 _ _ (.done []) h ends_nil le_rfl
  rw [parse, Printed.text, String.toList_ofList]
  simp only [hopens.skipped, hvalue, bind, Except.bind]
  rfl

end Json
end QueryTelemetry
