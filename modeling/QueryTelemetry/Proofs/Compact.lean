import QueryTelemetry.Proofs.Documents
import QueryTelemetry.Proofs.Gather

/-!
# Compact documents, read back

A compact text has no blanks and lists the members of every object by their names. It is there if
all integers of the document are short, and it is read as the document with its members so sorted,
which as a mapping is the document itself.
-/

set_option autoImplicit false

namespace QueryTelemetry.Json
open Payload (AllShort all_short_append)

mutual

def sorted : Json → Json
  | .arr items => .arr (sortedItems items)
  | .obj members => .obj (sortMembers (sortedMembers members))
  | v => v

def sortedItems : List Json → List Json
  | [] => []
  | v :: r => sorted v :: sortedItems r

def sortedMembers : List (Utf16 × Json) → List (Utf16 × Json)
  | [] => []
  | (k, v) :: r => (k, sorted v) :: sortedMembers r

end

mutual

/-- The same document but for the order of members: as many of them, and each under its name. -/
def Alike : Json → Json → Prop
  | .arr vs, w => ∃ ws, w = .arr ws ∧ ItemsAlike vs ws
  | .obj ms, w => ∃ ns, w = .obj ns ∧ ns.length = ms.length ∧ MembersAlike ms ns
  | v, w => v = w

def ItemsAlike : List Json → List Json → Prop
  | [], ws => ws = []
  | v :: r, ws => ∃ w t, ws = w :: t ∧ Alike v w ∧ ItemsAlike r t

def MembersAlike : List (Utf16 × Json) → Assoc Utf16 Json → Prop
  | [], _ => True
  | (k, v) :: r, ns => (∃ w, ns.get? k = some w ∧ Alike v w) ∧ MembersAlike r ns

end

theorem sort_members_perm {α : Type} (ms : List (Utf16 × α)) : (sortMembers ms).Perm ms :=
  List.mergeSort_perm ms _

theorem sorted_members_map (ms : List (Utf16 × Json)) :
    sortedMembers ms = ms.map fun p => (p.1, p.2.sorted) := by
  induction ms with
  | nil => rfl
  | cons p r ih => rw [sortedMembers, ih, List.map_cons]

theorem sorted_members_keys (ms : List (Utf16 × Json)) :
    (sortedMembers ms).map Prod.fst = ms.map Prod.fst := by
  rw [sorted_members_map, List.map_map]
  rfl

mutual

theorem alike_sorted : ∀ v : Json, v.Keyed → v.Alike v.sorted
  | .null | .bool _ | .int _ | .float _ | .str _ => fun _ => rfl
  | .arr vs => fun h => ⟨_, rfl, items_alike_sorted vs h⟩
  | .obj ms => by
    intro h
    have hperm := sort_members_perm (sortedMembers ms)
    refine ⟨_, rfl, ?_, ?_⟩
    · rw [hperm.length_eq, sorted_members_map, List.length_map]
    · have hkeys : (Assoc.keys (sortMembers (sortedMembers ms))).Nodup := by
        rw [Assoc.keys, (hperm.map Prod.fst).nodup_iff, sorted_members_keys]
        exact h.1
      exact members_alike_sorted ms _ h.2 fun p hp => (Assoc.get_mem hkeys).mpr
        (hperm.mem_iff.mpr (by rw [sorted_members_map]; exact List.mem_map_of_mem hp))

theorem items_alike_sorted : ∀ vs : List Json, ItemsKeyed vs → ItemsAlike vs (sortedItems vs)
  | [] => fun _ => rfl
  | v :: r => fun h => ⟨_, _, rfl, alike_sorted v h.1, items_alike_sorted r h.2⟩

/-- It is enough that every member is found sorted. -/
theorem members_alike_sorted : ∀ (ms : List (Utf16 × Json)) (ns : Assoc Utf16 Json),
    MembersKeyed ms → (∀ p ∈ ms, ns.get? p.1 = some p.2.sorted) → MembersAlike ms ns
  | [], _ => fun _ _ => trivial
  | (k, v) :: r, ns => fun h hget =>
    ⟨⟨_, hget (k, v) List.mem_cons_self, alike_sorted v h.1⟩,
      members_alike_sorted r ns h.2 fun p hp => hget p (List.mem_cons_of_mem _ hp)⟩

end

/-- The text is read as the value, whatever follows that no number could go on with. -/
structure Reads (room : Nat) (cs : List Char) (v : Json) : Prop where
  opens : ∀ k, Opens (cs ++ k)
  value : ∀ fuel k, Ends k → cs.length ≤ fuel → value (fuel + 1) room (cs ++ k) = .ok (v, k)

theorem commas_cons {t : List Char} {ts : List (List Char)} (h : ts ≠ []) :
    commas (t :: ts) = t ++ ',' :: commas ts := by
  cases ts with
  | nil => exact absurd rfl h
  | cons u r => rfl

theorem spaced_nil : Spaced [] := fun _ h => nomatch h

theorem items_commas {room : Nat} {ps : List (List Char × Json)} (hne : ps ≠ [])
    (h : ∀ p ∈ ps, Reads room p.1 p.2) (fuel : Nat) (k : List Char)
    (hf : (commas (ps.map Prod.fst)).length ≤ fuel) :
    Opens (commas (ps.map Prod.fst) ++ ']' :: k) ∧
    items (fuel + 2) room (commas (ps.map Prod.fst) ++ ']' :: k) = .ok (ps.map Prod.snd, k) := by
  induction ps generalizing fuel with
  | nil => exact absurd rfl hne
  | cons p ps ih =>
    obtain ⟨hp, hrest⟩ := List.forall_mem_cons.mp h
    by_cases hps : ps = []
    · subst hps
      exact ⟨hp.opens _, items_last spaced_nil (hp.value fuel _ (ends_cons (by decide) _) hf)⟩
    · have hmap : ps.map Prod.fst ≠ [] := fun he => hps (List.map_eq_nil_iff.mp he)
      rw [List.map_cons, commas_cons hmap] at hf ⊢
      rw [List.length_append, List.length_cons] at hf
      rw [List.append_assoc, List.cons_append]
      have hvalue := hp.value fuel (',' :: (commas (ps.map Prod.fst) ++ ']' :: k))
        (ends_cons (by decide) _) (by omega)
      obtain ⟨f, rfl⟩ := Nat.exists_eq_add_of_le' (m := 1) (n := fuel) (by omega)
      obtain ⟨hopens, hitems⟩ := ih hps hrest f (by omega)
      exact ⟨hp.opens _, items_next spaced_nil hvalue hopens hitems⟩

def memberText (p : Utf16 × List Char) : List Char := stringChars p.1 ++ ':' :: p.2

theorem member_text_length (s : Utf16) (t : List Char) :
    (memberText (s, t)).length = (stringChars s).length + (t.length + 1) := by
  rw [memberText, List.length_append, List.length_cons]

theorem opens_member (p : Utf16 × List Char) (k : List Char) : Opens (memberText p ++ k) :=
  ⟨'"', _, rfl, by decide⟩

theorem member_text_append (s : Utf16) (t k : List Char) :
    memberText (s, t) ++ k = stringChars s ++ (':' :: ([] ++ (t ++ k))) := by
  rw [memberText, List.append_assoc]
  rfl

theorem members_commas {room : Nat} {ps : List (Utf16 × List Char × Json)} (hne : ps ≠ [])
    (h : ∀ p ∈ ps, Reads room p.2.1 p.2.2) (fuel : Nat) (k : List Char)
    (hf : (commas (ps.map fun p => memberText (p.1, p.2.1))).length ≤ fuel) :
    Opens (commas (ps.map fun p => memberText (p.1, p.2.1)) ++ '\x7d' :: k) ∧
    members (fuel + 2) room (commas (ps.map fun p => memberText (p.1, p.2.1)) ++ '\x7d' :: k) =
      .ok (ps.map fun p => (p.1, p.2.2), k) := by
  induction ps generalizing fuel with
  | nil => exact absurd rfl hne
  | cons p ps ih =>
    obtain ⟨s, t, v⟩ := p
    obtain ⟨hp, hrest⟩ := List.forall_mem_cons.mp h
    by_cases hps : ps = []
    · subst hps
      rw [List.map_singleton, commas, member_text_length] at hf
      refine ⟨opens_member _ _, ?_⟩
      rw [List.map_singleton, commas, member_text_append]
      have hvalue := hp.value fuel ('\x7d' :: k) (ends_cons (by decide) _) (by omega)
      exact members_last spaced_nil spaced_nil (hp.opens _) hvalue
    · have hmap : ps.map (fun p => memberText (p.1, p.2.1)) ≠ [] :=
        fun he => hps (List.map_eq_nil_iff.mp he)
      rw [List.map_cons, commas_cons hmap] at hf ⊢
      rw [List.length_append, List.length_cons, member_text_length] at hf
      rw [List.append_assoc, List.cons_append]
      refine ⟨opens_member _ _, ?_⟩
      rw [member_text_append]
      have hvalue := hp.value fuel (',' :: (commas (ps.map fun p => memberText (p.1, p.2.1)) ++
        '\x7d' :: k)) (ends_cons (by decide) _) (by omega)
      obtain ⟨f, rfl⟩ := Nat.exists_eq_add_of_le' (m := 1) (n := fuel) (by omega)
      obtain ⟨hopens, hmembers⟩ := ih hps hrest f (by omega)
      exact members_next spaced_nil spaced_nil (hp.opens _) hvalue hopens hmembers

/-- Sorting looks at names only, so texts and values are sorted alike. -/
theorem sort_members_map {α β : Type} (f : α → β) (ms : List (Utf16 × α)) :
    sortMembers (ms.map fun p => (p.1, f p.2)) = (sortMembers ms).map fun p => (p.1, f p.2) := by
  rw [sortMembers, sortMembers, List.map_mergeSort]
  exact fun _ _ _ _ => rfl

section Values
variable {room : Nat}

theorem reads_solid {c : Char} {r : List Char} {v : Json} (hs : isSpace c = false) (ha : c ≠ ']')
    (hb : c ≠ '\x7d')
    (hv : ∀ fuel k, Ends k → value (fuel + 1) room (c :: (r ++ k)) = .ok (v, k)) :
    Reads room (c :: r) v where
  opens k := ⟨c, r ++ k, rfl, hs, ha, hb⟩
  value fuel k hk _ := hv fuel k hk

theorem reads_integer {n : Int} (h : n.natAbs < Integer.ceiling) :
    Reads room (Integer.signed n (Nat.toDigits 10 n.natAbs)) (.int n) where
  opens := opens_integer
  value fuel _ hk _ := value_integer fuel room h hk

theorem reads_float (x : Binary64) : Reads room (floatChars x) (.float x) where
  opens := opens_float x
  value fuel _ hk _ := value_float fuel room x hk

theorem reads_string (s : Utf16) : Reads room (stringChars s) (.str s) where
  opens k := ⟨'"', _, rfl, by decide⟩
  value fuel k _ _ := value_string fuel room s k

theorem reads_array {ps : List (List Char × Json)} (h : ∀ p ∈ ps, Reads room p.1 p.2) :
    Reads (room + 1) ('[' :: commas (ps.map Prod.fst) ++ [']']) (.arr (ps.map Prod.snd)) where
  opens k := ⟨'[', _, rfl, by decide⟩
  value fuel k _ hf := by
    by_cases hne : ps = []
    · subst hne
      exact value.eq_5 fuel room (']' :: k)
    · rw [List.length_append, List.length_cons, List.length_singleton] at hf
      rw [List.append_assoc, List.singleton_append, List.cons_append]
      obtain ⟨f, rfl⟩ := Nat.exists_eq_add_of_le' (m := 2) (n := fuel) (by omega)
      obtain ⟨hopens, hitems⟩ := items_commas hne h f k (by omega)
      have hvalue := value_arr spaced_nil hopens hitems
      exact hvalue

theorem reads_object {ps : List (Utf16 × List Char × Json)} (hk : (ps.map Prod.fst).Nodup)
    (h : ∀ p ∈ ps, Reads room p.2.1 p.2.2) :
    Reads (room + 1) ('\x7b' :: commas (ps.map fun p => memberText (p.1, p.2.1)) ++ ['\x7d'])
      (.obj (ps.map fun p => (p.1, p.2.2))) where
  opens k := ⟨'\x7b', _, rfl, by decide⟩
  value fuel k _ hf := by
    by_cases hne : ps = []
    · subst hne
      exact value.eq_6 fuel room ('\x7d' :: k)
    · rw [List.length_append, List.length_cons, List.length_singleton] at hf
      rw [List.append_assoc, List.singleton_append, List.cons_append]
      obtain ⟨f, rfl⟩ := Nat.exists_eq_add_of_le' (m := 2) (n := fuel) (by omega)
      obtain ⟨hopens, hmembers⟩ := members_commas hne h f k (by omega)
      have hnames : ((ps.map fun p => (p.1, p.2.2)).map Prod.fst).Nodup := by
        rw [List.map_map]
        exact hk
      have hvalue := value_obj spaced_nil hopens hnames hmembers
      exact hvalue

end Values

mutual

/-- A document that fits the reader has a compact text, which is read as the sorted document. -/
theorem compact_reads : ∀ (v : Json) (room : Nat), v.Sound room →
    ∃ cs, v.compact? = some cs ∧ Reads room cs v.sorted
  | .null, room => fun _ =>
    ⟨_, rfl, reads_solid rfl (by decide) (by decide) fun fuel k _ => value.eq_7 room fuel k⟩
  | .bool true, room => fun _ =>
    ⟨_, rfl, reads_solid rfl (by decide) (by decide) fun fuel k _ => value.eq_8 room fuel k⟩
  | .bool false, room => fun _ =>
    ⟨_, rfl, reads_solid rfl (by decide) (by decide) fun fuel k _ => value.eq_9 room fuel k⟩
  | .int n, room => fun h =>
    ⟨_, integer_chars h.short, reads_integer ((all_short_one n).mp h.short)⟩
  | .float x, room => fun _ => ⟨_, rfl, reads_float x⟩
  | .str s, room => fun _ => ⟨_, rfl, reads_string s⟩
  | .arr _, 0 => fun h => absurd h.nesting (Nat.not_succ_le_zero _)
  | .obj _, 0 => fun h => absurd h.nesting (Nat.not_succ_le_zero _)
  | .arr vs, room + 1 => by
    intro h
    obtain ⟨ps, htexts, hvalues, hreads⟩ :=
      compact_items_read vs room ((sound_arr_iff vs room).mp h)
    refine ⟨_, by rw [compact?, htexts, Option.map_some], ?_⟩
    rw [sorted, hvalues]
    exact reads_array hreads
  | .obj ms, room + 1 => by
    intro h
    obtain ⟨hkeys, hall⟩ := (sound_obj_iff ms room).mp h
    obtain ⟨ps, htexts, hvalues, hreads⟩ := compact_members_read ms room hall
    have hperm := sort_members_perm ps
    refine ⟨_, by rw [compact?, htexts, Option.map_some], ?_⟩
    rw [sorted, hvalues, sort_members_map Prod.fst, sort_members_map Prod.snd, List.map_map]
    refine reads_object ?_ fun p hp => hreads p (hperm.mem_iff.mp hp)
    have hnames : ps.map Prod.fst = ms.map Prod.fst := by
      rw [← sorted_members_keys, hvalues, List.map_map]
      rfl
    rw [(hperm.map Prod.fst).nodup_iff, hnames]
    exact hkeys

theorem compact_items_read : ∀ (vs : List Json) (room : Nat), (∀ v ∈ vs, v.Sound room) →
    ∃ ps : List (List Char × Json), compactItems? vs = some (ps.map Prod.fst) ∧
      sortedItems vs = ps.map Prod.snd ∧ ∀ p ∈ ps, Reads room p.1 p.2
  | [], _ => fun _ => ⟨[], rfl, rfl, fun _ h => nomatch h⟩
  | v :: r, room => by
    intro h
    obtain ⟨hv, hr⟩ := List.forall_mem_cons.mp h
    obtain ⟨cs, hcs, hreads⟩ := compact_reads v room hv
    obtain ⟨ps, htexts, hvalues, hall⟩ := compact_items_read r room hr
    refine ⟨(cs, v.sorted) :: ps, ?_, ?_, List.forall_mem_cons.mpr ⟨hreads, hall⟩⟩
    · rw [compactItems?, hcs, htexts]
      rfl
    · rw [sortedItems, hvalues, List.map_cons]

theorem compact_members_read : ∀ (ms : List (Utf16 × Json)) (room : Nat),
    (∀ p ∈ ms, p.2.Sound room) → ∃ ps : List (Utf16 × List Char × Json),
      compactMembers? ms = some (ps.map fun p => (p.1, p.2.1)) ∧
      sortedMembers ms = ps.map (fun p => (p.1, p.2.2)) ∧ ∀ p ∈ ps, Reads room p.2.1 p.2.2
  | [], _ => fun _ => ⟨[], rfl, rfl, fun _ h => nomatch h⟩
  | (k, v) :: r, room => by
    intro h
    obtain ⟨hv, hr⟩ := List.forall_mem_cons.mp h
    obtain ⟨cs, hcs, hreads⟩ := compact_reads v room hv
    obtain ⟨ps, htexts, hvalues, hall⟩ := compact_members_read r room hr
    refine ⟨(k, cs, v.sorted) :: ps, ?_, ?_, List.forall_mem_cons.mpr ⟨hreads, hall⟩⟩
    · rw [compactMembers?, hcs, htexts]
      rfl
    · rw [sortedMembers, hvalues, List.map_cons]

end

/-- A compact text is read as a document that is the same as a mapping. -/
theorem parse_compact {v : Json} {room : Nat} (h : v.Sound room) : ∃ cs, v.compact? = some cs ∧
    parse room (String.ofList cs) = .ok v.sorted ∧ v.Alike v.sorted := by
  obtain ⟨cs, hcs, hreads⟩ := compact_reads v room h
  have hopens : Opens cs := List.append_nil cs ▸ hreads.opens []
  have hvalue := hreads.value cs.length [] ends_nil le_rfl
  rw [List.append_nil] at hvalue
  refine ⟨cs, hcs, ?_, alike_sorted v h.keyed⟩
  rw [parse, String.toList_ofList]
  simp only [hopens.skipped, hvalue, bind, Except.bind]
  rfl

mutual

/-- A document has a compact text unless an integer in it is too long. -/
theorem compact_iff_short : ∀ v : Json, v.compact?.isSome ↔ AllShort v.integers
  | .null | .bool _ | .float _ | .str _ => by simp [compact?, integers, AllShort]
  | .int n => Payload.chars_iff_short n
  | .arr vs => by
    rw [compact?, Option.isSome_map]
    exact compact_items_iff_short vs
  | .obj ms => by
    rw [compact?, Option.isSome_map]
    exact compact_members_iff_short ms

theorem compact_items_iff_short : ∀ vs : List Json,
    (compactItems? vs).isSome ↔ AllShort (itemIntegers vs)
  | [] => by simp [compactItems?, itemIntegers, AllShort]
  | v :: r => by
    rw [itemIntegers, all_short_append, ← compact_items_iff_short r, ← compact_iff_short v,
      compactItems?]
    cases compact? v <;> cases compactItems? r <;> simp

theorem compact_members_iff_short : ∀ ms : List (Utf16 × Json),
    (compactMembers? ms).isSome ↔ AllShort (memberIntegers ms)
  | [] => by simp [compactMembers?, memberIntegers, AllShort]
  | (_, v) :: r => by
    rw [memberIntegers, all_short_append, ← compact_members_iff_short r, ← compact_iff_short v,
      compactMembers?]
    cases compact? v <;> cases compactMembers? r <;> simp

end

end QueryTelemetry.Json
