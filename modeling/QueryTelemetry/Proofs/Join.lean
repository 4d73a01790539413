import QueryTelemetry.Proofs.Entries

/-!
# Joining totals with facts

Pulling the facts of a list of identities into totals adds up the facts of all of them and leaves
counts and durations alone. As an entry lists each of its identities once, every report of an
identity is pulled in once, however often the identity completed.
-/

set_option autoImplicit false

namespace QueryTelemetry

namespace Correlator
variable (c : Correlator Identity) (kind : QueryKind)

/-- An identity without reads adds nothing, which is what adding zero does. -/
theorem pull_eq (t : Totals) (i : Identity) : c.pull kind t i =
    if kind = .sqlFields then
      ((t.addReads ((c.reads? kind i).getD ⟨0, 0⟩)).addProperties
        ((c.properties? kind i).getD [])).addRows ((c.rows? kind i).getD [])
    else t.addReads ((c.reads? kind i).getD ⟨0, 0⟩) := by
  unfold pull
  cases c.reads? kind i <;> simp [Totals.addReads]

def pullAll (t : Totals) (ids : List Identity) : Totals := ids.foldl (c.pull kind) t

theorem pull_all_cons (t : Totals) (i : Identity) (ids : List Identity) :
    c.pullAll kind t (i :: ids) = c.pullAll kind (c.pull kind t i) ids := rfl

theorem pull_all_frame (t : Totals) (ids : List Identity) :
    (c.pullAll kind t ids).count = t.count ∧ (c.pullAll kind t ids).duration = t.duration ∧
      (c.pullAll kind t ids).failures = t.failures := by
  induction ids generalizing t with
  | nil => exact ⟨rfl, rfl, rfl⟩
  | cons i ids ih =>
    obtain ⟨hc, hd, hf⟩ := ih (c.pull kind t i)
    rw [pull_all_cons, hc, hd, hf, pull_eq]
    split <;> exact ⟨rfl, rfl, rfl⟩

/-- However the reads of an identity are made up, those of all listed identities are added. -/
theorem pull_all_reads {ρ : Type} (f : ρ → Reads) (reads : Identity → List ρ)
    (hr : ∀ i, (c.reads? kind i).getD ⟨0, 0⟩ =
      ⟨((reads i).map fun r => (f r).logical).sum, ((reads i).map fun r => (f r).physical).sum⟩)
    (t : Totals) (ids : List Identity) :
    (⟨(c.pullAll kind t ids).logicalReads, (c.pullAll kind t ids).physicalReads⟩ : Reads) =
      (⟨t.logicalReads, t.physicalReads⟩ : Reads).add
        ⟨((ids.flatMap reads).map fun r => (f r).logical).sum,
          ((ids.flatMap reads).map fun r => (f r).physical).sum⟩ := by
  induction ids generalizing t with
  | nil => simp [pullAll, Reads.add]
  | cons i ids ih =>
    rw [pull_all_cons, ih, pull_eq, hr]
    split <;>
      simp [Reads.add, Totals.addReads, Totals.addProperties, Totals.addRows, add_assoc]

/-- A field of the totals into which each identity pours the counts that are found for it. -/
theorem pull_all_tally {κ : Type} [DecidableEq κ] (field : Totals → Assoc κ Int)
    {found : Identity → Assoc κ Int} {facts : Identity → List (κ × Int)}
    (hfound : ∀ i, Tallies (found i) (facts i))
    (hpull : ∀ t i, field (c.pull .sqlFields t i) =
      (found i).foldl (fun m p => bump m p.1 p.2) (field t))
    {t : Totals} {xs : List (κ × Int)} (ht : Tallies (field t) xs) (ids : List Identity) :
    Tallies (field (c.pullAll .sqlFields t ids)) (xs ++ ids.flatMap facts) := by
  induction ids generalizing t xs with
  | nil => simpa [pullAll] using ht
  | cons i ids ih =>
    rw [pull_all_cons, List.flatMap_cons, ← List.append_assoc]
    apply ih
    rw [hpull]
    exact ht.merge (hfound i)

theorem pull_all_rows (rows : Identity → List (String × Int))
    (hr : ∀ i, Tallies ((c.rows? (some .sqlFields) i).getD []) (rows i))
    {t : Totals} {xs : List (String × Int)} (ht : Tallies t.rows xs) (ids : List Identity) :
    Tallies (c.pullAll .sqlFields t ids).rows (xs ++ ids.flatMap rows) :=
  c.pull_all_tally Totals.rows hr (fun t i => by rw [pull_eq, if_pos rfl]; rfl) ht ids

theorem pull_all_properties (properties : Identity → List ((String × String) × Int))
    (hp : ∀ i, Tallies ((c.properties? (some .sqlFields) i).getD []) (properties i))
    {t : Totals} {xs : List ((String × String) × Int)} (ht : Tallies t.properties xs)
    (ids : List Identity) :
    Tallies (c.pullAll .sqlFields t ids).properties (xs ++ ids.flatMap properties) := by
  refine c.pull_all_tally Totals.properties hp (fun t i => ?_) ht ids
  rw [pull_eq, if_pos rfl]
  simp only [← PropertyCounts.add_eq_bump]
  rfl

theorem pull_all_blocks {kind : QueryKind} (hk : kind ≠ .sqlFields) (t : Totals)
    (ids : List Identity) : (c.pullAll kind t ids).rows = t.rows ∧
      (c.pullAll kind t ids).properties = t.properties := by
  induction ids generalizing t with
  | nil => exact ⟨rfl, rfl⟩
  | cons i ids ih =>
    rw [pull_all_cons, pull_eq, if_neg hk]
    exact ih _

end Correlator

/-- A block is shown exactly if something was counted. -/
theorem shown_rows {m : RowCounts} {rs : List RowsReport} (h : Tallies m (rowIncrements rs)) :
    (if m.isEmpty then none else some m.block) = rowsBlock rs := by
  have he : m = [] ↔ rs = [] := by simpa [rowIncrements] using h.empty_iff
  unfold rowsBlock
  by_cases hm : m = []
  · simp [hm, he.mp hm]
  · rw [if_neg (by simpa using hm), if_neg fun hr => hm (he.mpr hr), RowCounts.block_tally h]
    simp [rowIncrements, amount, List.filter_map, Function.comp_def]

theorem shown_properties {m : PropertyCounts} {rs : List PropertyReport}
    (h : Tallies m (propertyIncrements rs)) :
    (if m.isEmpty then none else some m.block) = propertyBlock rs := by
  have he : m = [] ↔ rs = [] := by simpa [propertyIncrements] using h.empty_iff
  unfold propertyBlock
  by_cases hm : m = []
  · simp [hm, he.mp hm]
  · rw [if_neg (by simpa using hm), if_neg fun hr => hm (he.mpr hr), PropertyCounts.block_tally h]
    simp [propertyIncrements, amount, List.filter_map, Function.comp_def,
      PropertyCounts.leastValue]

end QueryTelemetry
