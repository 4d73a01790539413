import QueryTelemetry.Proofs.Detached
import QueryTelemetry.Proofs.Scopes

/-!
# Listings of identities

A set of identities can be listed in many ways: its nodes in any order, and the ids of each node in
any order. Joining totals with the facts of the identities follows one such list. The maps that are
filled on the way may come out in another order then, but what they count is the same for all
lists, and so is the entry that is shown, since its blocks are sorted.
-/

set_option autoImplicit false

namespace QueryTelemetry

namespace IdentitySet

def SameNode (p q : NodeId × List Int) : Prop := p.1 = q.1 ∧ p.2.Perm q.2

/-- All identities node by node: the nodes in any order, and the ids of each node in any order. -/
def Lists (s : IdentitySet) (is : List Identity) : Prop :=
  ∃ listed nodes : IdentitySet, nodes.Perm s ∧ List.Forall₂ SameNode listed nodes ∧
    is = listed.toList

theorem lists_to_list (s : IdentitySet) : s.Lists s.toList :=
  ⟨s, s, .refl s, List.forall₂_same.mpr fun p _ => ⟨rfl, .refl p.2⟩, rfl⟩

theorem to_list_same_nodes {s t : IdentitySet} (h : List.Forall₂ SameNode s t) :
    s.toList.Perm t.toList := by
  induction h with
  | nil => exact .refl _
  | cons hp _ ih =>
    obtain ⟨hnode, hids⟩ := hp
    rw [toList, toList, List.flatMap_cons, List.flatMap_cons, hnode]
    exact (hids.map _).append ih

theorem Lists.perm {s : IdentitySet} {is : List Identity} (h : s.Lists is) :
    is.Perm s.toList := by
  obtain ⟨listed, nodes, hnodes, hsame, rfl⟩ := h
  exact (to_list_same_nodes hsame).trans (hnodes.flatMap_right _)

end IdentitySet

section Content
variable {κ : Type} [DecidableEq κ] {m p : Assoc κ Int} {xs : List (κ × Int)}

theorem Tallies.get_eq (hm : Tallies m xs) (hp : Tallies p xs) (k : κ) : m.get? k = p.get? k :=
  (hm.get_found k).trans (hp.get_found k).symm

theorem Tallies.empty_eq (hm : Tallies m xs) (hp : Tallies p xs) : m.isEmpty = p.isEmpty := by
  rw [Bool.eq_iff_iff, List.isEmpty_iff, List.isEmpty_iff, hm.empty_iff, hp.empty_iff]

end Content

namespace Totals

structure Alike (t u : Totals) : Prop where
  count : t.count = u.count
  duration : t.duration = u.duration
  logicalReads : t.logicalReads = u.logicalReads
  physicalReads : t.physicalReads = u.physicalReads
  failures : t.failures = u.failures
  properties : ∃ xs, Tallies t.properties xs ∧ Tallies u.properties xs
  rows : ∃ xs, Tallies t.rows xs ∧ Tallies u.rows xs

/-- Sorting forgets what they differ in. -/
theorem Alike.entry_eq {t u : Totals} (h : t.Alike u) : t.entry = u.entry := by
  obtain ⟨ps, htp, hup⟩ := h.properties
  obtain ⟨rs, htr, hur⟩ := h.rows
  have hproperties : t.properties.block = u.properties.block := by
    rw [PropertyCounts.block_tally htp, PropertyCounts.block_tally hup]
  have hrows : t.rows.block = u.rows.block := by
    rw [RowCounts.block_tally htr, RowCounts.block_tally hur]
  rw [entry, entry, h.count, h.duration, h.failures, h.logicalReads, h.physicalReads,
    htp.empty_eq hup, htr.empty_eq hur, hproperties, hrows]

end Totals

namespace Correlator
variable (byKind : Bool) (calls : List (Call Identity)) (kind : QueryKind)

/-! What the calls have recorded for some identities, as far as the kind shows it. -/

def readsFor (ids : List Identity) : List Reads := ids.flatMap fun i => readsUnder kind i calls

def rowsFor (ids : List Identity) : List (String × Int) :=
  if kind = .sqlFields then ids.flatMap fun i => rowsUnder byKind kind i calls else []

def propertiesFor (ids : List Identity) : List ((String × String) × Int) :=
  if kind = .sqlFields then
    ids.flatMap fun i => (pairsUnder byKind kind i calls).map fun p => (p, 1)
  else []

section Found
variable (i : Identity)

theorem reads_found : ((((empty byKind).after calls).reads? kind i).getD ⟨0, 0⟩ : Reads) =
    sumReads (readsUnder kind i calls) := by
  have hfound := Answer.reads.inj (answer_after byKind calls (.reads (some kind) i))
  rw [hfound]
  cases readsUnder (some kind) i calls <;> rfl

theorem rows_found : Tallies ((((empty byKind).after calls).rows? kind i).getD [])
    (rowsUnder byKind kind i calls) := by
  have hfound := Answer.rows.inj (answer_after byKind calls (.rows (some kind) i))
  rw [hfound, unless_nil_get counts rfl]
  exact counts_tally _

theorem properties_found : Tallies ((((empty byKind).after calls).properties? kind i).getD [])
    ((pairsUnder byKind kind i calls).map fun p => (p, 1)) := by
  have hfound := Answer.properties.inj (answer_after byKind calls (.properties (some kind) i))
  rw [hfound, unless_nil_get occurrences rfl, ← counts_ones]
  exact counts_tally _

end Found

section Joined
variable (t : Totals) (ids : List Identity)

theorem joined_reads_for :
    (⟨(((empty byKind).after calls).pullAll kind t ids).logicalReads,
        (((empty byKind).after calls).pullAll kind t ids).physicalReads⟩ : Reads) =
      (⟨t.logicalReads, t.physicalReads⟩ : Reads).add (sumReads (readsFor calls kind ids)) :=
  pull_all_reads _ kind id _ (reads_found byKind calls kind) t ids

variable {t} (ht : t.Distinct)
include ht

theorem joined_rows_for : Tallies (((empty byKind).after calls).pullAll kind t ids).rows
    (t.rows ++ rowsFor byKind calls kind ids) := by
  have hown := Tallies.bindings ht.rows
  unfold rowsFor
  split
  · rename_i hk
    subst hk
    exact pull_all_rows _ _ (rows_found byKind calls .sqlFields) hown ids
  · rename_i hk
    rwa [(pull_all_blocks _ hk t ids).1, List.append_nil]

theorem joined_properties_for :
    Tallies (((empty byKind).after calls).pullAll kind t ids).properties
      (t.properties ++ propertiesFor byKind calls kind ids) := by
  have hown := Tallies.bindings ht.properties
  unfold propertiesFor
  split
  · rename_i hk
    subst hk
    exact pull_all_properties _ _ (properties_found byKind calls .sqlFields) hown ids
  · rename_i hk
    rwa [(pull_all_blocks _ hk t ids).2, List.append_nil]

end Joined

section Reordered
variable {is js : List Identity} (h : is.Perm js)
include h

theorem sum_reads_for : sumReads (readsFor calls kind is) = sumReads (readsFor calls kind js) := by
  have hp : (readsFor calls kind is).Perm (readsFor calls kind js) := h.flatMap_right _
  rw [sumReads, sumReads, (hp.map _).sum_eq, (hp.map _).sum_eq]

theorem rows_for_perm :
    (rowsFor byKind calls kind is).Perm (rowsFor byKind calls kind js) := by
  unfold rowsFor
  split
  · exact h.flatMap_right _
  · exact .refl _

theorem properties_for_perm :
    (propertiesFor byKind calls kind is).Perm (propertiesFor byKind calls kind js) := by
  unfold propertiesFor
  split
  · exact h.flatMap_right _
  · exact .refl _

/-- Each identity adds its facts, whenever its turn comes. -/
theorem joined_alike {t : Totals} (ht : t.Distinct) :
    (((empty byKind).after calls).pullAll kind t is).Alike
      (((empty byKind).after calls).pullAll kind t js) := by
  have hreads := joined_reads_for byKind calls kind t is
  rw [sum_reads_for calls kind h, ← joined_reads_for byKind calls kind t js] at hreads
  obtain ⟨hlogical, hphysical⟩ := Reads.mk.inj hreads
  obtain ⟨hcount, hduration, hfailures⟩ := ((empty byKind).after calls).pull_all_frame kind t is
  obtain ⟨hcount', hduration', hfailures'⟩ :=
    ((empty byKind).after calls).pull_all_frame kind t js
  have hproperties := (properties_for_perm byKind calls kind h).append_left t.properties
  have hrows := (rows_for_perm byKind calls kind h).append_left t.rows
  exact {
    count := hcount.trans hcount'.symm
    duration := hduration.trans hduration'.symm
    logicalReads := hlogical
    physicalReads := hphysical
    failures := hfailures.trans hfailures'.symm
    properties := ⟨_, (joined_properties_for byKind calls kind is ht).perm hproperties,
      joined_properties_for byKind calls kind js ht⟩
    rows := ⟨_, (joined_rows_for byKind calls kind is ht).perm hrows,
      joined_rows_for byKind calls kind js ht⟩ }

end Reordered

/-- Joining totals with the facts of a set of identities gives the same sums and the same entry for
all lists of the set: what the totals had before, with what was recorded for the identities. -/
theorem join_of_any_listing {e : Entry} (he : e.totals.Distinct) {is js : List Identity}
    (hi : e.identities.Lists is) (hj : e.identities.Lists js) :
    let c := (empty byKind).after calls
    let join (ids : List Identity) := ids.foldl (c.pull kind) e.totals
    c.totals kind e = join e.identities.toList ∧ e.identities.Lists e.identities.toList ∧
    (join is).logicalReads = (join js).logicalReads ∧
    (join is).physicalReads = (join js).physicalReads ∧
    (∀ action, (join is).rows.get? action = (join js).rows.get? action) ∧
    (∀ pair, (join is).properties.get? pair = (join js).properties.get? pair) ∧
    (join is).entry = (join js).entry ∧
    (⟨(join is).logicalReads, (join is).physicalReads⟩ : Reads) =
      (⟨e.totals.logicalReads, e.totals.physicalReads⟩ : Reads).add
        (sumReads (readsFor calls kind is)) ∧
    Tallies (join is).rows (e.totals.rows ++ rowsFor byKind calls kind is) ∧
    Tallies (join is).properties (e.totals.properties ++ propertiesFor byKind calls kind is) := by
  intro c join
  have halike : (join is).Alike (join js) :=
    joined_alike byKind calls kind (hi.perm.trans hj.perm.symm) he
  obtain ⟨rs, hrows, hrows'⟩ := halike.rows
  obtain ⟨ps, hproperties, hproperties'⟩ := halike.properties
  exact ⟨rfl, e.identities.lists_to_list, halike.logicalReads, halike.physicalReads,
    hrows.get_eq hrows', hproperties.get_eq hproperties', halike.entry_eq,
    joined_reads_for byKind calls kind e.totals is, joined_rows_for byKind calls kind is he,
    joined_properties_for byKind calls kind is he⟩

/-- Two lists of three identities. The maps are filled in another order, and what is shown is the
same. -/
theorem join_of_two_listings :
    let n : NodeId := .named "n"
    let m : NodeId := .numbered 7
    let calls : List (Call Identity) := [.recordRows none ⟨n, 2⟩ "put" 2,
      .recordRows (some .scan) ⟨m, 1⟩ "get" 3, .recordRows (some .set) ⟨n, 1⟩ "put" 4,
      .recordProperty none ⟨n, 1⟩ "index" "b", .recordProperty none ⟨m, 1⟩ "index" "a",
      .recordReads (some .sqlFields) ⟨n, 2⟩ ⟨5, 1⟩, .recordReads (some .sqlFields) ⟨m, 1⟩ ⟨6, 0⟩]
    let e : Entry := ⟨{ Totals.empty with rows := [("scanned", 8)] }, [(n, [1, 2]), (m, [1])]⟩
    let join (ids : List Identity) := ids.foldl (((empty false).after calls).pull .sqlFields) e.totals
    let is : List Identity := [⟨n, 1⟩, ⟨n, 2⟩, ⟨m, 1⟩]
    let js : List Identity := [⟨m, 1⟩, ⟨n, 2⟩, ⟨n, 1⟩]
    e.totals.Distinct ∧ e.identities.Lists is ∧ e.identities.Lists js ∧
    (join is).rows = [("scanned", 8), ("put", 6), ("get", 3)] ∧
    (join js).rows = [("scanned", 8), ("get", 3), ("put", 6)] ∧
    (join is).properties ≠ (join js).properties ∧ (join is).logicalReads = 11 ∧
    (join is).entry = (join js).entry := by
  intro n m calls e join is js
  have he : e.totals.Distinct := ⟨by decide, by decide⟩
  have hi : e.identities.Lists is := e.identities.lists_to_list
  have hj : e.identities.Lists js := by
    refine ⟨[(m, [1]), (n, [2, 1])], [(m, [1]), (n, [1, 2])], by decide, ?_, rfl⟩
    exact .cons ⟨rfl, .refl _⟩ (.cons ⟨rfl, by decide⟩ .nil)
  obtain ⟨-, -, -, -, -, -, hentry, -⟩ := join_of_any_listing false calls .sqlFields he hi hj
  exact ⟨he, hi, hj, by decide, by decide, by decide, by decide, hentry⟩

end Correlator

end QueryTelemetry
