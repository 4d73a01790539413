import Mathlib.Logic.Function.Basic
import QueryTelemetry.Proofs.Lookups

/-!
# Counters held by reference

A map of properties binds its pairs to counters, and the counters are cells of their own: two
maps that refer to one counter would both show whatever is added through either. Here the
updates are written out on the cells, with every copy that they make. An update of one map
changes the counters of that map and cells that nobody held before, so all maps that have no
counter in common with it show what they showed.
-/

set_option autoImplicit false

namespace QueryTelemetry

structure Heap where
  next : Nat
  counters : Nat → Int
  properties : Nat → Assoc (String × String) Nat
  rows : Nat → RowCounts
  identities : Nat → IdentitySet

namespace Heap

section Iteration
variable {κ ν : Type} [DecidableEq κ]

/-- An iteration looks at the map again for every key, and it fails once the map has more or
fewer bindings than at the beginning. -/
def each (look : Heap → Assoc κ ν) (body : Heap → κ → ν → Heap) (size : Nat) :
    List κ → Heap → Option Heap
  | [], h => if (look h).length = size then some h else none
  | k :: ks, h =>
    if (look h).length = size then
      match (look h).get? k with
      | some v => each look body size ks (body h k v)
      | none => none
    else none

def iterate (look : Heap → Assoc κ ν) (body : Heap → κ → ν → Heap) (h : Heap) : Option Heap :=
  each look body (look h).length (look h).keys h

/-- As long as the bindings that are still to come stay what they were, iterating over the map is
going through the list of its bindings. -/
theorem iterate_eq (look : Heap → Assoc κ ν) (body : Heap → κ → ν → Heap) (h : Heap)
    (Left : Assoc κ ν → Heap → Prop) (hstart : Left (look h) h)
    (hsize : ∀ xs g, Left xs g → (look g).length = (look h).length)
    (hnext : ∀ b xs g, Left (b :: xs) g →
      (look g).get? b.1 = some b.2 ∧ Left xs (body g b.1 b.2)) :
    iterate look body h = some ((look h).foldl (fun g b => body g b.1 b.2) h) := by
  have hall : ∀ xs g, Left xs g → each look body (look h).length (xs.map Prod.fst) g =
      some (xs.foldl (fun g b => body g b.1 b.2) g) := by
    intro xs
    induction xs with
    | nil =>
      intro g hg
      exact if_pos (hsize _ _ hg)
    | cons b xs ih =>
      intro g hg
      obtain ⟨hget, hleft⟩ := hnext b xs g hg
      rw [List.map_cons, each, if_pos (hsize _ _ hg), hget]
      exact ih _ hleft
  exact hall (look h) h hstart

end Iteration

def held (h : Heap) (q : Nat) : List Nat := (h.properties q).map Prod.snd

def shown (h : Heap) (q : Nat) : PropertyCounts :=
  (h.properties q).map fun b => (b.1, h.counters b.2)

def place (h : Heap) (q : Nat) (pair : String × String) (n : Int) : Heap :=
  { h with
    next := h.next + 1
    counters := Function.update h.counters h.next n
    properties := Function.update h.properties q ((h.properties q).put pair h.next) }

/-- A pair that is there gets the count added to its own counter; one that is not gets a copy. -/
def addProperty (h : Heap) (q : Nat) (pair : String × String) (counter : Nat) : Heap :=
  match (h.properties q).get? pair with
  | some own =>
    { h with
      counters := Function.update h.counters own (h.counters own + h.counters counter) }
  | none => h.place q pair (h.counters counter)

def addProperties (h : Heap) (q p : Nat) : Option Heap :=
  iterate (·.properties p) (fun g pair c => g.addProperty q pair c) h

def openProperties (h : Heap) : Heap :=
  { h with next := h.next + 1, properties := Function.update h.properties h.next [] }

def copyProperties (h : Heap) (p : Nat) : Option Heap :=
  iterate (·.properties p) (fun g pair c => g.place h.next pair (g.counters c)) h.openProperties

def newProperties (h : Heap) (ps : PropertyCounts) : Heap :=
  ps.foldl (fun g b => g.place h.next b.1 b.2) h.openProperties

def newRows (h : Heap) (rs : RowCounts) : Heap :=
  { h with next := h.next + 1, rows := Function.update h.rows h.next rs }

def addRow (h : Heap) (r : Nat) (action : String) (n : Int) : Heap :=
  { h with rows := Function.update h.rows r ((h.rows r).add action n) }

def addRows (h : Heap) (r s : Nat) : Option Heap :=
  iterate (·.rows s) (fun g action n => g.addRow r action n) h

def countRows (h : Heap) (r : Nat) (rs : RowCounts) : Heap :=
  { h with rows := Function.update h.rows r (rs.foldl (fun m p => m.add p.1 p.2) (h.rows r)) }

structure Sound (h : Heap) (q : Nat) : Prop where
  keys : (h.properties q).keys.Nodup
  held : (h.held q).Nodup
  known : ∀ c ∈ h.held q, c < h.next

theorem keys_shown (h : Heap) (q : Nat) : (h.shown q).keys = (h.properties q).keys := by
  rw [Assoc.keys, shown, List.map_map]
  rfl

theorem mem_held {h : Heap} {q : Nat} {b : (String × String) × Nat} (hb : b ∈ h.properties q) :
    b.2 ∈ h.held q :=
  List.mem_map_of_mem hb

theorem held_congr {h g : Heap} {q : Nat} (hp : g.properties q = h.properties q) :
    g.held q = h.held q :=
  congrArg _ hp

theorem Sound.kept {h g : Heap} {q : Nat} (hs : h.Sound q) (hp : g.properties q = h.properties q)
    (hlt : h.next ≤ g.next) : g.Sound q where
  keys := by
    rw [hp]
    exact hs.keys
  held := by
    rw [held_congr hp]
    exact hs.held
  known := by
    rw [held_congr hp]
    exact fun c hc => (hs.known c hc).trans_le hlt

/-- What a map shows depends on its bindings and on the counters that it holds. -/
theorem shown_congr {h g : Heap} {q : Nat} (hp : g.properties q = h.properties q)
    (hc : ∀ c ∈ h.held q, g.counters c = h.counters c) : g.shown q = h.shown q := by
  rw [shown, shown, hp]
  apply List.map_congr_left
  intro b hb
  rw [hc b.2 (mem_held hb)]

/-- Adding to the counter of a key adds under that key and under no other, because no other key
has the same counter. -/
theorem map_count {κ : Type} [DecidableEq κ] {m : Assoc κ Nat} {k : κ} {c : Nat}
    (hkeys : m.keys.Nodup) (hheld : (m.map Prod.snd).Nodup) (hk : m.get? k = some c)
    (f : Nat → Int) (n : Int) :
    (m.map fun b => (b.1, Function.update f c (f c + n) b.2)) =
      bump (m.map fun b => (b.1, f b.2)) k n := by
  induction m with
  | nil => simp [Assoc.get?] at hk
  | cons b r ih =>
    obtain ⟨-, hkeys⟩ := List.nodup_cons.mp hkeys
    obtain ⟨hb, hheld⟩ := List.nodup_cons.mp hheld
    rw [Assoc.get?] at hk
    split at hk
    · rename_i hbk
      obtain rfl : b.2 = c := Option.some.inj hk
      have hrest : (r.map fun x => (x.1, Function.update f b.2 (f b.2 + n) x.2)) =
          r.map fun x => (x.1, f x.2) := by
        apply List.map_congr_left
        intro x hx
        have hne : x.2 ≠ b.2 := fun he => hb (he ▸ List.mem_map_of_mem hx)
        rw [Function.update_of_ne hne]
      rw [List.map_cons, hrest, Function.update_self, List.map_cons, bump, Assoc.update,
        if_pos hbk]
      rfl
    · rename_i hbk
      have hmem : (k, c) ∈ r := (Assoc.get_mem hkeys).mp hk
      have hne : b.2 ≠ c := fun he => hb (he ▸ List.mem_map_of_mem (f := Prod.snd) hmem)
      rw [List.map_cons, ih hkeys hheld hk, Function.update_of_ne hne, List.map_cons, bump, bump,
        Assoc.update, if_neg hbk]

/-! ## What an update leaves alone -/

/-- From one heap to a later one, the increments were added to one map, and beside its own
counters nothing changed that was there. -/
structure Writes (q : Nat) (xs : PropertyCounts) (h g : Heap) : Prop where
  sound : g.Sound q
  shown : g.shown q = xs.foldl (fun m b => m.add b.1 b.2) (h.shown q)
  next : h.next ≤ g.next
  held : ∀ c ∈ g.held q, c ∈ h.held q ∨ h.next ≤ c
  counters : ∀ c < h.next, c ∉ h.held q → g.counters c = h.counters c
  properties : ∀ p, p ≠ q → g.properties p = h.properties p
  rows : g.rows = h.rows
  identities : g.identities = h.identities

namespace Writes
variable {q : Nat} {xs ys : PropertyCounts} {h g k : Heap}

theorem refl (hs : h.Sound q) : Writes q [] h h where
  sound := hs
  shown := rfl
  next := le_refl _
  held := fun _ hc => Or.inl hc
  counters := fun _ _ _ => rfl
  properties := fun _ _ => rfl
  rows := rfl
  identities := rfl

theorem trans (hg : Writes q xs h g) (hk : Writes q ys g k) : Writes q (xs ++ ys) h k where
  sound := hk.sound
  shown := by rw [hk.shown, hg.shown, List.foldl_append]
  next := hg.next.trans hk.next
  held := by
    intro c hc
    rcases hk.held c hc with hold | hnew
    · exact hg.held c hold
    · exact Or.inr (hg.next.trans hnew)
  counters := by
    intro c hlt hc
    have hcg : c ∉ g.held q := fun h' => (hg.held c h').elim hc (Nat.not_le_of_lt hlt)
    rw [hk.counters c (hlt.trans_le hg.next) hcg, hg.counters c hlt hc]
  properties := fun p hp => (hk.properties p hp).trans (hg.properties p hp)
  rows := hk.rows.trans hg.rows
  identities := hk.identities.trans hg.identities

/-- A map that has no counter in common with the one that is written to shows what it showed. -/
theorem elsewhere (hw : Writes q xs h g) {p : Nat} (hp : p ≠ q) (hs : h.Sound p)
    (hd : (h.held p).Disjoint (h.held q)) : g.shown p = h.shown p :=
  shown_congr (hw.properties p hp) fun c hc => hw.counters c (hs.known c hc) (hd hc)

end Writes

section Place
variable {h : Heap} {q : Nat} {pair : String × String}

theorem place_put (h : Heap) (q : Nat) (pair : String × String) (n : Int) :
    (h.place q pair n).properties q = (h.properties q).put pair h.next :=
  Function.update_self _ _ _

theorem place_bindings (hnew : pair ∉ (h.properties q).keys) (n : Int) :
    (h.place q pair n).properties q = h.properties q ++ [(pair, h.next)] := by
  rw [place_put, Assoc.put, Assoc.update_new _ hnew]

theorem place_held (hnew : pair ∉ (h.properties q).keys) (n : Int) :
    (h.place q pair n).held q = h.held q ++ [h.next] := by
  rw [held, place_bindings hnew, List.map_append]
  rfl

theorem place_counter {c : Nat} (hc : c < h.next) (n : Int) :
    (h.place q pair n).counters c = h.counters c :=
  Function.update_of_ne (ne_of_lt hc) _ _

theorem sound_place (hs : h.Sound q) (hnew : pair ∉ (h.properties q).keys) (n : Int) :
    (h.place q pair n).Sound q := by
  constructor
  · rw [place_bindings hnew, Assoc.keys, List.map_append, List.map_singleton,
      ← List.concat_eq_append]
    exact List.Nodup.concat hnew hs.keys
  · rw [place_held hnew, ← List.concat_eq_append]
    exact List.Nodup.concat (fun hc => lt_irrefl _ (hs.known _ hc)) hs.held
  · intro c hc
    rw [place_held hnew, List.mem_append, List.mem_singleton] at hc
    rcases hc with hc | rfl
    · exact (hs.known c hc).trans (Nat.lt_succ_self _)
    · exact Nat.lt_succ_self _

theorem shown_place (hs : h.Sound q) (hnew : pair ∉ (h.properties q).keys) (n : Int) :
    (h.place q pair n).shown q = (h.shown q).add pair n := by
  have hold : ((h.properties q).map fun b => (b.1, (h.place q pair n).counters b.2)) =
      h.shown q := by
    apply List.map_congr_left
    intro b hb
    rw [place_counter (hs.known _ (mem_held hb))]
  have hown : (h.place q pair n).counters h.next = n := Function.update_self _ _ _
  have hkey : pair ∉ (h.shown q).keys := by rwa [keys_shown]
  rw [shown, place_bindings hnew, List.map_append, hold, List.map_singleton, hown,
    PropertyCounts.add, Assoc.update_new _ hkey]

theorem place_writes (hs : h.Sound q) (hnew : pair ∉ (h.properties q).keys) (n : Int) :
    Writes q [(pair, n)] h (h.place q pair n) where
  sound := sound_place hs hnew n
  shown := shown_place hs hnew n
  next := Nat.le_succ _
  held := by
    intro c hc
    rw [place_held hnew, List.mem_append, List.mem_singleton] at hc
    exact hc.imp id fun he => le_of_eq he.symm
  counters := fun _ hlt _ => place_counter hlt n
  properties := fun _ hp => Function.update_of_ne hp _ _
  rows := rfl
  identities := rfl

end Place

theorem add_property_own {h : Heap} {q : Nat} {pair : String × String} {own : Nat}
    (hget : (h.properties q).get? pair = some own) (c : Nat) :
    h.addProperty q pair c =
      { h with counters := Function.update h.counters own (h.counters own + h.counters c) } := by
  rw [addProperty, hget]

theorem add_property_new {h : Heap} {q : Nat} {pair : String × String}
    (hget : (h.properties q).get? pair = none) (c : Nat) :
    h.addProperty q pair c = h.place q pair (h.counters c) := by
  rw [addProperty, hget]

theorem add_property_writes {h : Heap} {q : Nat} (hs : h.Sound q) (pair : String × String)
    (c : Nat) : Writes q [(pair, h.counters c)] h (h.addProperty q pair c) := by
  cases hget : (h.properties q).get? pair with
  | none =>
    rw [add_property_new hget]
    exact place_writes hs ((Assoc.get_none_iff _ _).mp hget) _
  | some own =>
    rw [add_property_own hget]
    have hown : own ∈ h.held q := mem_held ((Assoc.get_mem hs.keys).mp hget)
    constructor
    · exact ⟨hs.keys, hs.held, hs.known⟩
    · rw [List.foldl_cons, List.foldl_nil, PropertyCounts.add_eq_bump]
      exact map_count hs.keys hs.held hget _ _
    · exact le_refl _
    · exact fun _ => Or.inl
    · intro d _ hd
      have hne : d ≠ own := fun he => hd (he ▸ hown)
      exact Function.update_of_ne hne _ _
    · exact fun _ _ => rfl
    · rfl
    · rfl

/-! ## Iterations -/

section AddProperties
variable {h : Heap} {q p : Nat}

theorem add_property_counter {pair : String × String} {c d : Nat} (hd : d < h.next)
    (hown : ∀ own, (h.properties q).get? pair = some own → d ≠ own) :
    (h.addProperty q pair c).counters d = h.counters d := by
  cases hget : (h.properties q).get? pair with
  | none => rw [add_property_new hget, place_counter hd]
  | some own =>
    rw [add_property_own hget]
    exact Function.update_of_ne (hown own hget) _ _

theorem add_property_get {pair other : String × String} (hne : other ≠ pair) (c : Nat) :
    ((h.addProperty q pair c).properties q).get? other = (h.properties q).get? other := by
  cases hget : (h.properties q).get? pair with
  | none =>
    rw [add_property_new hget, place_put, Assoc.get_put, if_neg hne]
  | some own => rw [add_property_own hget]

/-- Counting under one pair does not touch the counters that are still to be read. -/
def Clear (m xs : Assoc (String × String) Nat) : Prop :=
  ∀ b ∈ xs, ∀ own, m.get? b.1 = some own → ∀ d ∈ xs, d.1 ≠ b.1 → d.2 ≠ own

theorem fold_writes (xs : Assoc (String × String) Nat) (hs : h.Sound q) (hkeys : xs.keys.Nodup)
    (hknown : ∀ b ∈ xs, b.2 < h.next) (hclear : Clear (h.properties q) xs) :
    Writes q (xs.map fun b => (b.1, h.counters b.2)) h
      (xs.foldl (fun g b => g.addProperty q b.1 b.2) h) := by
  induction xs generalizing h with
  | nil => exact Writes.refl hs
  | cons b xs ih =>
    obtain ⟨hb, hkeys⟩ := List.nodup_cons.mp hkeys
    have hother : ∀ d ∈ xs, d.1 ≠ b.1 := fun d hd he => hb (he ▸ List.mem_map_of_mem hd)
    have hone := add_property_writes hs b.1 b.2
    have hsame : ∀ d ∈ xs, (h.addProperty q b.1 b.2).counters d.2 = h.counters d.2 := fun d hd =>
      add_property_counter (hknown d (List.mem_cons_of_mem _ hd)) fun own hget =>
        hclear b List.mem_cons_self own hget d (List.mem_cons_of_mem _ hd) (hother d hd)
    have hrest : Clear ((h.addProperty q b.1 b.2).properties q) xs := by
      intro x hx own hget d hd
      rw [add_property_get (hother x hx)] at hget
      exact hclear x (List.mem_cons_of_mem _ hx) own hget d (List.mem_cons_of_mem _ hd)
    have hfold := ih hone.sound hkeys (fun d hd =>
      (hknown d (List.mem_cons_of_mem _ hd)).trans_le hone.next) hrest
    have hmap : (xs.map fun d => (d.1, (h.addProperty q b.1 b.2).counters d.2)) =
        xs.map fun d => (d.1, h.counters d.2) :=
      List.map_congr_left fun d hd => by rw [hsame d hd]
    rw [hmap] at hfold
    exact hone.trans hfold

/-- A map may be added to itself: every pair is there then, and its counter is read before it is
written. -/
theorem clear_self (hp : h.Sound p) : Clear (h.properties p) (h.properties p) := by
  intro b hb own hget d hd hne he
  have hown : (b.1, own) ∈ h.properties p := (Assoc.get_mem hp.keys).mp hget
  have hsame : d = (b.1, own) := List.inj_on_of_nodup_map hp.held hd hown he
  exact hne (by rw [hsame])

theorem clear_apart (hq : h.Sound q) (hd : (h.held p).Disjoint (h.held q)) :
    Clear (h.properties q) (h.properties p) := by
  intro b _ own hget d hdp _ he
  have hown : own ∈ h.held q := mem_held ((Assoc.get_mem hq.keys).mp hget)
  exact hd (mem_held hdp) (he ▸ hown)

/-- Adding to one map leaves the bindings of the map that is read as they are, also if it is the
same map. -/
theorem add_property_read {pair : String × String} (hread : p = q → pair ∈ (h.properties q).keys)
    (c : Nat) : (h.addProperty q pair c).properties p = h.properties p := by
  cases hget : (h.properties q).get? pair with
  | some own => rw [add_property_own hget]
  | none =>
    have hne : p ≠ q := fun he => (Assoc.get_none_iff _ _).mp hget (hread he)
    rw [add_property_new hget]
    exact Function.update_of_ne hne _ _

theorem add_properties_run (hp : h.Sound p) : h.addProperties q p =
    some ((h.properties p).foldl (fun g b => g.addProperty q b.1 b.2) h) := by
  apply iterate_eq _ _ h fun xs g => g.properties p = h.properties p ∧ xs.Sublist (h.properties p)
  · exact ⟨rfl, List.Sublist.refl _⟩
  · rintro xs g ⟨hg, -⟩
    exact congrArg List.length hg
  · rintro b xs g ⟨hg, hsub⟩
    have hb : b ∈ h.properties p := hsub.subset List.mem_cons_self
    refine ⟨?_, ?_, (List.sublist_cons_self b xs).trans hsub⟩
    · simp only [hg]
      exact (Assoc.get_mem hp.keys).mpr hb
    · rw [add_property_read, hg]
      intro he
      rw [← he, hg]
      exact List.mem_map_of_mem hb

theorem add_properties_writes (hq : h.Sound q) (hp : h.Sound p)
    (hd : p ≠ q → (h.held p).Disjoint (h.held q)) :
    ∃ g, h.addProperties q p = some g ∧ Writes q (h.shown p) h g := by
  have hknown : ∀ b ∈ h.properties p, b.2 < h.next := fun b hb => hp.known _ (mem_held hb)
  refine ⟨_, add_properties_run hp, fold_writes _ hq hp.keys hknown ?_⟩
  by_cases he : p = q
  · exact he ▸ clear_self hp
  · exact clear_apart hq (hd he)

end AddProperties

/-! ## New maps -/

section NewMaps
variable {h : Heap}

theorem open_bindings (h : Heap) : h.openProperties.properties h.next = [] :=
  Function.update_self _ _ _

theorem sound_open (h : Heap) : h.openProperties.Sound h.next := by
  constructor <;> simp [held, open_bindings, Assoc.keys]

theorem place_all (ps : PropertyCounts) {q : Nat} (hs : h.Sound q) (hkeys : ps.keys.Nodup)
    (hnew : ∀ b ∈ ps, b.1 ∉ (h.properties q).keys) :
    Writes q ps h (ps.foldl (fun g b => g.place q b.1 b.2) h) := by
  induction ps generalizing h with
  | nil => exact Writes.refl hs
  | cons b ps ih =>
    obtain ⟨hb, hkeys⟩ := List.nodup_cons.mp hkeys
    have hone := place_writes hs (hnew b List.mem_cons_self) b.2
    refine hone.trans (ih hone.sound hkeys ?_)
    intro d hd hmem
    rw [place_bindings (hnew b List.mem_cons_self), Assoc.keys, List.map_append, List.mem_append,
      List.map_singleton, List.mem_singleton] at hmem
    rcases hmem with hold | he
    · exact hnew d (List.mem_cons_of_mem _ hd) hold
    · exact hb (he ▸ List.mem_map_of_mem hd)

theorem new_properties_writes {ps : PropertyCounts} (hps : ps.keys.Nodup) :
    Writes h.next ps h.openProperties (h.newProperties ps) := by
  apply place_all ps (sound_open h) hps
  intro b _
  rw [open_bindings]
  exact List.not_mem_nil

theorem new_properties_held {ps : PropertyCounts} (hps : ps.keys.Nodup) {c : Nat}
    (hc : c ∈ (h.newProperties ps).held h.next) : h.next ≤ c := by
  rcases (new_properties_writes hps).held c hc with hold | hnew
  · rw [held, open_bindings] at hold
    exact absurd hold List.not_mem_nil
  · exact (Nat.le_succ _).trans hnew

theorem new_properties_shown {ps : PropertyCounts} (hps : ps.keys.Nodup) :
    (h.newProperties ps).shown h.next = ps := by
  have hnil : h.openProperties.shown h.next = [] := by rw [shown, open_bindings, List.map_nil]
  rw [(new_properties_writes hps).shown, hnil]
  simp only [PropertyCounts.add_eq_bump]
  exact fold_bump_new ps [] hps

/-- New counters do not disturb those that are still to be copied. -/
theorem copy_fold (xs : Assoc (String × String) Nat) (q : Nat) (hknown : ∀ b ∈ xs, b.2 < h.next) :
    xs.foldl (fun g b => g.place q b.1 (g.counters b.2)) h =
      (xs.map fun b => (b.1, h.counters b.2)).foldl (fun g b => g.place q b.1 b.2) h := by
  induction xs generalizing h with
  | nil => rfl
  | cons b xs ih =>
    have hsame : (xs.map fun d => (d.1, (h.place q b.1 (h.counters b.2)).counters d.2)) =
        xs.map fun d => (d.1, h.counters d.2) :=
      List.map_congr_left fun d hd => by
        rw [place_counter (hknown d (List.mem_cons_of_mem _ hd))]
    rw [List.foldl_cons, ih fun d hd =>
      (hknown d (List.mem_cons_of_mem _ hd)).trans (Nat.lt_succ_self _), hsame]
    rfl

/-- Copying the counters one by one makes the map that somebody would make who was told what they
show. -/
theorem copy_properties_run {p : Nat} (hp : h.Sound p) (hlt : p < h.next) :
    h.copyProperties p = some (h.newProperties (h.shown p)) := by
  have hne : p ≠ h.next := ne_of_lt hlt
  have hread : h.openProperties.properties p = h.properties p := Function.update_of_ne hne _ _
  have hrun : h.copyProperties p = some ((h.openProperties.properties p).foldl
      (fun g b => g.place h.next b.1 (g.counters b.2)) h.openProperties) := by
    apply iterate_eq _ _ _ fun xs g => g.properties p = h.properties p ∧ xs.Sublist (h.properties p)
    · exact ⟨hread, hread ▸ List.Sublist.refl _⟩
    · rintro xs g ⟨hg, -⟩
      rw [hg, hread]
    · rintro b xs g ⟨hg, hsub⟩
      refine ⟨?_, ?_, (List.sublist_cons_self b xs).trans hsub⟩
      · simp only [hg]
        exact (Assoc.get_mem hp.keys).mpr (hsub.subset List.mem_cons_self)
      · exact (Function.update_of_ne hne _ _).trans hg
  rw [hrun, hread, copy_fold]
  · rfl
  · intro b hb
    exact (hp.known _ (mem_held hb)).trans (Nat.lt_succ_self _)

end NewMaps

/-! ## Rows -/

section Rows
variable {h : Heap} {r s : Nat} {action : String}

theorem add_row_here (h : Heap) (r : Nat) (action : String) (n : Int) :
    (h.addRow r action n).rows r = (h.rows r).add action n :=
  Function.update_self _ _ _

theorem add_row_elsewhere (hne : s ≠ r) (n : Int) :
    (h.addRow r action n).rows s = h.rows s :=
  Function.update_of_ne hne _ _

theorem add_row_keys (hread : s = r → action ∈ (h.rows s).keys) (n : Int) :
    ((h.addRow r action n).rows s).keys = (h.rows s).keys := by
  by_cases he : s = r
  · have hmem := hread he
    subst he
    rw [add_row_here, RowCounts.add, Assoc.keys_update, if_pos hmem]
  · rw [add_row_elsewhere he]

theorem add_row_get {other : String} (hne : other ≠ action) (n : Int) :
    ((h.addRow r action n).rows s).get? other = (h.rows s).get? other := by
  by_cases he : s = r
  · subst he
    rw [add_row_here, RowCounts.add, Assoc.get_update, if_neg hne]
  · rw [add_row_elsewhere he]

theorem add_row_fold (rs : RowCounts) (h : Heap) (r : Nat) :
    rs.foldl (fun g b => g.addRow r b.1 b.2) h = h.countRows r rs := by
  induction rs generalizing h with
  | nil => rw [countRows, List.foldl_nil, List.foldl_nil, Function.update_eq_self]
  | cons b rs ih =>
    rw [List.foldl_cons, ih, addRow]
    simp only [countRows, Function.update_idem, Function.update_self, List.foldl_cons]

/-- Rows are plain counts, so one map is written and nothing else. A map that is added to itself
is still read as it was, because no action comes twice. -/
theorem add_rows_run (hkeys : (h.rows s).keys.Nodup) :
    h.addRows r s = some (h.countRows r (h.rows s)) := by
  rw [← add_row_fold]
  apply iterate_eq _ _ h fun xs g =>
    (g.rows s).keys = (h.rows s).keys ∧ xs.keys.Nodup ∧ ∀ b ∈ xs, (g.rows s).get? b.1 = some b.2
  · exact ⟨rfl, hkeys, fun b hb => (Assoc.get_mem hkeys).mpr hb⟩
  · rintro xs g ⟨hg, -, -⟩
    simpa only [Assoc.keys, List.length_map] using congrArg List.length hg
  · rintro b xs g ⟨hg, hxs, hget⟩
    obtain ⟨hb, hxs⟩ := List.nodup_cons.mp hxs
    have hhead := hget b List.mem_cons_self
    have hmem : b.1 ∈ (g.rows s).keys := by
      rw [← Assoc.has_iff, Assoc.has, hhead]
      rfl
    refine ⟨hhead, (add_row_keys (fun _ => hmem) b.2).trans hg, hxs, ?_⟩
    intro d hd
    have hother : d.1 ≠ b.1 := fun he => hb (he ▸ List.mem_map_of_mem hd)
    exact (add_row_get hother b.2).trans (hget d (List.mem_cons_of_mem _ hd))

end Rows

end Heap

end QueryTelemetry
