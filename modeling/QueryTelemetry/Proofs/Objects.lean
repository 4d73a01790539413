import QueryTelemetry.Proofs.Heap

/-!
# Families of totals on the heap

Each info of a family refers to a map of properties and a map of rows that no other info refers
to, and no two maps of properties have a counter in common. Only the set of identities is the same
for all of them. Every operation keeps this, a detached copy included, and what the infos show
after it are the totals of the family, so nothing that is done to one info shows in another one.
-/

set_option autoImplicit false

namespace QueryTelemetry

structure Info where
  count : Nat
  duration : Int
  logicalReads : Int
  physicalReads : Int
  failures : Nat
  properties : Nat
  rows : Nat
  identities : Nat

def Info.merge (x : Info) (duration : Int) (success : Bool) : Info :=
  { x with
    count := x.count + 1
    duration := x.duration + duration
    failures := if success then x.failures else x.failures + 1 }

def Heap.totals (h : Heap) (x : Info) : Totals :=
  { count := x.count
    duration := x.duration
    logicalReads := x.logicalReads
    physicalReads := x.physicalReads
    failures := x.failures
    properties := h.shown x.properties
    rows := h.rows x.rows }

def Heap.insertIdentity (h : Heap) (a : Nat) (i : Identity) : Heap :=
  { h with identities := Function.update h.identities a ((h.identities a).insert i) }

structure Objects where
  heap : Heap
  infos : List Info

namespace Objects

def start : Objects :=
  ⟨⟨1, fun _ => 0, fun _ => [], fun _ => [], fun _ => []⟩, [⟨0, 0, 0, 0, 0, 0, 0, 0⟩]⟩

/-- Rows and properties come in maps of the caller's. There is no answer if an iteration fails or
if there is no such slot. -/
def step (o : Objects) : Family.Op → Option Objects
  | .merge n i duration success => do
    let x ← o.infos[n]?
    return ⟨o.heap.insertIdentity x.identities i, o.infos.modify n (·.merge duration success)⟩
  | .detach n => do
    let x ← o.infos[n]?
    let h ← o.heap.copyProperties x.properties
    let copy := { x with properties := o.heap.next, rows := h.next }
    return ⟨h.newRows (h.rows x.rows), o.infos ++ [copy]⟩
  | .rows n rs => do
    let x ← o.infos[n]?
    let h ← (o.heap.newRows rs).addRows x.rows o.heap.next
    return ⟨h, o.infos⟩
  | .properties n ps => do
    let x ← o.infos[n]?
    let h ← (o.heap.newProperties ps).addProperties x.properties o.heap.next
    return ⟨h, o.infos⟩
  | .absorb n m => do
    let x ← o.infos[n]?
    let y ← o.infos[m]?
    let g ← o.heap.addProperties x.properties y.properties
    let h ← g.addRows x.rows y.rows
    return ⟨h, o.infos⟩

def run (o : Objects) (ops : List Family.Op) : Option Objects := ops.foldlM step o

end Objects

structure Heap.Spares (h g : Heap) : Prop where
  next : h.next ≤ g.next
  counters : ∀ c < h.next, g.counters c = h.counters c
  properties : ∀ p < h.next, g.properties p = h.properties p
  rows : ∀ r < h.next, g.rows r = h.rows r
  identities : g.identities = h.identities

namespace Heap

theorem new_properties_spares (h : Heap) {ps : PropertyCounts} (hps : ps.keys.Nodup) :
    h.Spares (h.newProperties ps) where
  next := (Nat.le_succ _).trans (new_properties_writes hps).next
  counters := by
    intro c hc
    apply (new_properties_writes hps).counters c (hc.trans (Nat.lt_succ_self _))
    rw [held, open_bindings]
    exact List.not_mem_nil
  properties := by
    intro p hp
    rw [(new_properties_writes hps).properties p (ne_of_lt hp)]
    exact Function.update_of_ne (ne_of_lt hp) _ _
  rows := fun r _ => congrFun (new_properties_writes hps).rows r
  identities := (new_properties_writes hps).identities

theorem new_rows_spares (h : Heap) (rs : RowCounts) : h.Spares (h.newRows rs) where
  next := Nat.le_succ _
  counters := fun _ _ => rfl
  properties := fun _ _ => rfl
  rows := fun _ hr => Function.update_of_ne (ne_of_lt hr) _ _
  identities := rfl

theorem Spares.trans {h g k : Heap} (hg : h.Spares g) (hk : g.Spares k) : h.Spares k where
  next := hg.next.trans hk.next
  counters := fun c hc => (hk.counters c (hc.trans_le hg.next)).trans (hg.counters c hc)
  properties := fun p hp => (hk.properties p (hp.trans_le hg.next)).trans (hg.properties p hp)
  rows := fun r hr => (hk.rows r (hr.trans_le hg.next)).trans (hg.rows r hr)
  identities := hk.identities.trans hg.identities

end Heap

/-- No two infos refer to one container, and no two maps of properties to one counter, apart from
the set of identities at address zero, which all of them refer to. -/
structure Separate (h : Heap) (xs : List Info) : Prop where
  known : ∀ x ∈ xs, x.properties < h.next ∧ x.rows < h.next
  sound : ∀ x ∈ xs, h.Sound x.properties
  actions : ∀ x ∈ xs, (h.rows x.rows).keys.Nodup
  properties : (xs.map (·.properties)).Nodup
  rows : (xs.map (·.rows)).Nodup
  counters : ∀ x ∈ xs, ∀ y ∈ xs, x.properties ≠ y.properties →
    (h.held x.properties).Disjoint (h.held y.properties)
  identities : ∀ x ∈ xs, x.identities = 0

namespace Separate
variable {h g : Heap} {xs : List Info} {x y : Info} {n m : Nat}

theorem other_slot {f : Info → Nat} (hf : (xs.map f).Nodup) (hx : xs[n]? = some x)
    (hy : xs[m]? = some y) (hne : m ≠ n) : f y ≠ f x := by
  intro he
  have hlt : m < (xs.map f).length := by
    rw [List.length_map]
    exact (List.getElem?_eq_some_iff.mp hy).1
  apply hne
  apply (List.getElem?_inj hlt hf).mp
  rw [List.getElem?_map, List.getElem?_map, hx, hy, Option.map_some, Option.map_some, he]

section Spares

theorem totals_spared (hs : Separate h xs) (hg : h.Spares g) (hx : x ∈ xs) :
    g.totals x = h.totals x := by
  have hp := hg.properties _ (hs.known x hx).1
  have hshown : g.shown x.properties = h.shown x.properties :=
    Heap.shown_congr hp fun c hc => hg.counters c ((hs.sound x hx).known c hc)
  rw [Heap.totals, Heap.totals, hshown, hg.rows _ (hs.known x hx).2]

theorem spares (hs : Separate h xs) (hg : h.Spares g) : Separate g xs := by
  have hp : ∀ x ∈ xs, g.properties x.properties = h.properties x.properties := fun x hx =>
    hg.properties _ (hs.known x hx).1
  constructor
  · exact fun x hx => (hs.known x hx).imp (fun h' => h'.trans_le hg.next) fun h' =>
      h'.trans_le hg.next
  · exact fun x hx => (hs.sound x hx).kept (hp x hx) hg.next
  · intro x hx
    rw [hg.rows _ (hs.known x hx).2]
    exact hs.actions x hx
  · exact hs.properties
  · exact hs.rows
  · intro x hx y hy hne
    rw [Heap.held_congr (hp x hx), Heap.held_congr (hp y hy)]
    exact hs.counters x hx y hy hne
  · exact hs.identities

end Spares

section Writes
variable {ps : PropertyCounts}

theorem totals_written (hw : Heap.Writes x.properties ps h g) :
    g.totals x = (h.totals x).addProperties ps := by
  rw [Heap.totals, hw.shown, hw.rows]
  rfl

theorem totals_unwritten (hs : Separate h xs) (hx : x ∈ xs) (hw : Heap.Writes x.properties ps h g)
    (hy : y ∈ xs) (hne : y.properties ≠ x.properties) : g.totals y = h.totals y := by
  have hshown := hw.elsewhere hne (hs.sound y hy) (hs.counters y hy x hx hne)
  rw [Heap.totals, hshown, hw.rows]
  rfl

theorem writes (hs : Separate h xs) (hx : x ∈ xs) (hw : Heap.Writes x.properties ps h g) :
    Separate g xs := by
  have hheld : ∀ y : Info, y.properties ≠ x.properties →
      g.held y.properties = h.held y.properties :=
    fun y hne => Heap.held_congr (hw.properties _ hne)
  -- what the written map holds is its own, or it is newer than all that the others hold
  have hgrown : ∀ y ∈ xs, y.properties ≠ x.properties →
      (g.held y.properties).Disjoint (g.held x.properties) := by
    intro y hy hne c hcy hcx
    rw [hheld y hne] at hcy
    rcases hw.held c hcx with hold | hnew
    · exact hs.counters y hy x hx hne hcy hold
    · exact Nat.not_le_of_lt ((hs.sound y hy).known c hcy) hnew
  constructor
  · exact fun y hy => (hs.known y hy).imp (fun h' => h'.trans_le hw.next) fun h' =>
      h'.trans_le hw.next
  · intro y hy
    by_cases he : y.properties = x.properties
    · exact he ▸ hw.sound
    · exact (hs.sound y hy).kept (hw.properties _ he) hw.next
  · intro y hy
    rw [hw.rows]
    exact hs.actions y hy
  · exact hs.properties
  · exact hs.rows
  · intro y hy z hz hne
    by_cases hyx : y.properties = x.properties
    · rw [hyx]
      exact List.disjoint_symm (hgrown z hz fun he => hne (hyx.trans he.symm))
    · by_cases hzx : z.properties = x.properties
      · rw [hzx]
        exact hgrown y hy hyx
      · rw [hheld y hyx, hheld z hzx]
        exact hs.counters y hy z hz hne
  · exact hs.identities

end Writes

section Rows
variable {rs : RowCounts}

theorem totals_counted (h : Heap) (x : Info) (rs : RowCounts) :
    (h.countRows x.rows rs).totals x = (h.totals x).addRows rs := by
  have hrows : (h.countRows x.rows rs).rows x.rows =
      rs.foldl (fun m p => m.add p.1 p.2) (h.rows x.rows) := Function.update_self _ _ _
  rw [Heap.totals, hrows]
  rfl

theorem totals_uncounted (h : Heap) (rs : RowCounts) (hne : y.rows ≠ x.rows) :
    (h.countRows x.rows rs).totals y = h.totals y := by
  have hrows : (h.countRows x.rows rs).rows y.rows = h.rows y.rows :=
    Function.update_of_ne hne _ _
  rw [Heap.totals, hrows]
  rfl

theorem keys_nodup_count {m : RowCounts} (hm : m.keys.Nodup) (rs : RowCounts) :
    (Assoc.keys (rs.foldl (fun (m : RowCounts) p => m.add p.1 p.2) m)).Nodup := by
  induction rs generalizing m with
  | nil => exact hm
  | cons b rs ih => exact ih (Assoc.keys_nodup_update hm _ _)

theorem count_rows (hs : Separate h xs) (hx : x ∈ xs) (rs : RowCounts) :
    Separate (h.countRows x.rows rs) xs where
  known := hs.known
  sound := fun y hy => (hs.sound y hy).kept rfl le_rfl
  actions := by
    intro y hy
    rw [Heap.countRows]
    by_cases he : y.rows = x.rows
    · simp only [he, Function.update_self]
      exact keys_nodup_count (hs.actions x hx) rs
    · simp only [Function.update_of_ne he]
      exact hs.actions y hy
  properties := hs.properties
  rows := hs.rows
  counters := hs.counters
  identities := hs.identities

end Rows

section Infos

theorem attach (hs : Separate h xs) (hg : h.Spares g)
    (hp : h.next ≤ x.properties ∧ x.properties < g.next) (hr : h.next ≤ x.rows ∧ x.rows < g.next)
    (hsound : g.Sound x.properties) (hheld : ∀ c ∈ g.held x.properties, h.next ≤ c)
    (hactions : (g.rows x.rows).keys.Nodup) (hi : x.identities = 0) :
    Separate g (xs ++ [x]) := by
  have hold := hs.spares hg
  -- all that the others hold is older than what the new info holds
  have hnew : ∀ y ∈ xs, (g.held y.properties).Disjoint (g.held x.properties) := by
    intro y hy c hcy hcx
    rw [Heap.held, hg.properties _ (hs.known y hy).1] at hcy
    exact Nat.not_le_of_lt ((hs.sound y hy).known c hcy) (hheld c hcx)
  constructor
  · exact List.forall_mem_append.mpr ⟨hold.known, List.forall_mem_singleton.mpr ⟨hp.2, hr.2⟩⟩
  · exact List.forall_mem_append.mpr ⟨hold.sound, List.forall_mem_singleton.mpr hsound⟩
  · exact List.forall_mem_append.mpr ⟨hold.actions, List.forall_mem_singleton.mpr hactions⟩
  · rw [List.map_append, List.map_singleton, ← List.concat_eq_append]
    apply List.Nodup.concat _ hs.properties
    intro hmem
    obtain ⟨y, hy, he⟩ := List.mem_map.mp hmem
    exact Nat.not_le_of_lt (hs.known y hy).1 (he ▸ hp.1)
  · rw [List.map_append, List.map_singleton, ← List.concat_eq_append]
    apply List.Nodup.concat _ hs.rows
    intro hmem
    obtain ⟨y, hy, he⟩ := List.mem_map.mp hmem
    exact Nat.not_le_of_lt (hs.known y hy).2 (he ▸ hr.1)
  · intro y hy z hz hne
    rw [List.mem_append, List.mem_singleton] at hy hz
    rcases hy with hy | rfl
    · rcases hz with hz | rfl
      · exact hold.counters y hy z hz hne
      · exact hnew y hy
    · rcases hz with hz | rfl
      · exact List.disjoint_symm (hnew z hz)
      · exact absurd rfl hne
  · exact List.forall_mem_append.mpr ⟨hold.identities, List.forall_mem_singleton.mpr hi⟩

theorem detached (hs : Separate h xs) (hx : x ∈ xs) :
    let g := h.newProperties (h.shown x.properties)
    let k := g.newRows (g.rows x.rows)
    let copy := { x with properties := h.next, rows := g.next }
    h.Spares k ∧ Separate k (xs ++ [copy]) ∧ k.totals copy = h.totals x := by
  intro g k copy
  have hkeys : (h.shown x.properties).keys.Nodup := by
    rw [Heap.keys_shown]
    exact (hs.sound x hx).keys
  have hmade := Heap.new_properties_writes (h := h) hkeys
  have hg : h.Spares g := h.new_properties_spares hkeys
  have hk : h.Spares k := hg.trans (g.new_rows_spares _)
  have hrows : k.rows copy.rows = h.rows x.rows :=
    (Function.update_self _ _ _).trans (hg.rows _ (hs.known x hx).2)
  have hlt : g.next < k.next := Nat.lt_succ_self _
  have hsound : k.Sound copy.properties := hmade.sound.kept rfl hlt.le
  refine ⟨hk, ?_, ?_⟩
  · apply hs.attach hk _ ⟨hg.next, hlt⟩ hsound _ _ (hs.identities x hx)
    · exact ⟨le_refl _, (Nat.lt_of_succ_le hmade.next).trans hlt⟩
    · exact fun c hc => Heap.new_properties_held hkeys hc
    · rw [hrows]
      exact hs.actions x hx
  · have hshown : k.shown copy.properties = h.shown x.properties :=
      Heap.new_properties_shown hkeys
    rw [Heap.totals, hrows, hshown]
    rfl

theorem remake {ys : List Info} (hs : Separate h xs)
    (hrefs : ys.map (fun x => (x.properties, x.rows, x.identities)) =
      xs.map fun x => (x.properties, x.rows, x.identities)) : Separate h ys := by
  have hmem : ∀ y ∈ ys, ∃ x ∈ xs, x.properties = y.properties ∧ x.rows = y.rows ∧
      x.identities = y.identities := by
    intro y hy
    have hy := List.mem_map_of_mem (f := fun x : Info => (x.properties, x.rows, x.identities)) hy
    rw [hrefs] at hy
    simpa only [List.mem_map, Prod.mk.injEq] using hy
  have hproperties : ys.map (·.properties) = xs.map (·.properties) := by
    simpa only [List.map_map, Function.comp_def] using congrArg (List.map Prod.fst) hrefs
  have hrows : ys.map (·.rows) = xs.map (·.rows) := by
    simpa only [List.map_map, Function.comp_def] using congrArg (List.map (·.2.1)) hrefs
  constructor
  · intro y hy
    obtain ⟨x, hx, hp, hr, -⟩ := hmem y hy
    exact hp ▸ hr ▸ hs.known x hx
  · intro y hy
    obtain ⟨x, hx, hp, -, -⟩ := hmem y hy
    exact hp ▸ hs.sound x hx
  · intro y hy
    obtain ⟨x, hx, -, hr, -⟩ := hmem y hy
    exact hr ▸ hs.actions x hx
  · exact hproperties ▸ hs.properties
  · exact hrows ▸ hs.rows
  · intro y hy z hz hne
    obtain ⟨x, hx, hp, -, -⟩ := hmem y hy
    obtain ⟨w, hw, hq, -, -⟩ := hmem z hz
    rw [← hp, ← hq] at hne ⊢
    exact hs.counters x hx w hw hne
  · intro y hy
    obtain ⟨x, hx, -, -, hi⟩ := hmem y hy
    exact hi ▸ hs.identities x hx

theorem insert_identity (hs : Separate h xs) (a : Nat) (i : Identity) :
    Separate (h.insertIdentity a i) xs where
  known := hs.known
  sound := fun x hx => (hs.sound x hx).kept rfl le_rfl
  actions := hs.actions
  properties := hs.properties
  rows := hs.rows
  counters := hs.counters
  identities := hs.identities

end Infos

end Separate

/-! ## What the infos show -/

structure Objects.Shows (o : Objects) (f : Family) : Prop where
  separate : Separate o.heap o.infos
  slots : o.infos.map o.heap.totals = f.slots
  identities : o.heap.identities 0 = f.identities

/-- The slots of an operation are among the first `n`, and no key comes twice in a map that the
caller made. -/
def Family.Op.Within (n : Nat) : Family.Op → Prop
  | .merge s _ _ _ | .detach s => s < n
  | .rows s rs => s < n ∧ rs.keys.Nodup
  | .properties s ps => s < n ∧ ps.keys.Nodup
  | .absorb s t => s < n ∧ t < n

instance (n : Nat) : (op : Family.Op) → Decidable (op.Within n)
  | .merge s _ _ _ | .detach s => inferInstanceAs (Decidable (s < n))
  | .rows s rs => inferInstanceAs (Decidable (s < n ∧ rs.keys.Nodup))
  | .properties s ps => inferInstanceAs (Decidable (s < n ∧ ps.keys.Nodup))
  | .absorb s t => inferInstanceAs (Decidable (s < n ∧ t < n))

def Family.Existing (f : Family) : List Family.Op → Prop
  | [] => True
  | op :: ops => op.Within f.slots.length ∧ (f.step op).Existing ops

instance decidableExisting (f : Family) : (ops : List Family.Op) → Decidable (f.Existing ops)
  | [] => inferInstanceAs (Decidable True)
  | op :: ops =>
    have := decidableExisting (f.step op) ops
    inferInstanceAs (Decidable (op.Within f.slots.length ∧ (f.step op).Existing ops))

namespace Objects
variable {o : Objects} {f : Family} {n m : Nat}

theorem start_shows : start.Shows .start where
  separate := by
    constructor <;> simp [start, Heap.held, Assoc.keys]
    constructor <;> simp [Heap.held, Assoc.keys]
  slots := rfl
  identities := rfl

theorem slots_modified {h g : Heap} {xs : List Info} {x : Info} (hx : xs[n]? = some x)
    (change : Totals → Totals) (hhere : g.totals x = change (h.totals x))
    (hothers : ∀ m y, xs[m]? = some y → m ≠ n → g.totals y = h.totals y) :
    xs.map g.totals = (xs.map h.totals).modify n change := by
  apply List.ext_getElem?
  intro m
  rw [List.getElem?_modify, List.getElem?_map, List.getElem?_map]
  cases hy : xs[m]? with
  | none => rfl
  | some y =>
    by_cases hm : n = m
    · subst hm
      obtain rfl : x = y := Option.some.inj (hx.symm.trans hy)
      simp [hhere]
    · simp [hm, hothers m y hy (Ne.symm hm)]

theorem map_modify {α β : Type} (xs : List α) (n : Nat) {c : α → α} {d : β → β} {view : α → β}
    (h : ∀ x, view (c x) = d (view x)) : (xs.modify n c).map view = (xs.map view).modify n d := by
  apply List.ext_getElem?
  intro m
  rw [List.getElem?_map, List.getElem?_modify, List.getElem?_modify, List.getElem?_map]
  cases xs[m]? with
  | none => rfl
  | some x => by_cases hm : n = m <;> simp [hm, h]

namespace Shows

theorem slot_exists (ho : o.Shows f) (hn : n < f.slots.length) :
    ∃ x, o.infos[n]? = some x ∧ x ∈ o.infos ∧ f.slot n = o.heap.totals x := by
  rw [← ho.slots, List.length_map] at hn
  refine ⟨o.infos[n], List.getElem?_eq_getElem hn, List.getElem_mem hn, ?_⟩
  rw [Family.slot, ← ho.slots, List.getD_eq_getElem?_getD, List.getElem?_map,
    List.getElem?_eq_getElem hn]
  rfl

theorem merge (ho : o.Shows f) (hn : n < f.slots.length) (i : Identity) (duration : Int)
    (success : Bool) : ∃ p, o.step (.merge n i duration success) = some p ∧
      p.Shows (f.step (.merge n i duration success)) := by
  obtain ⟨x, hx, hmem, -⟩ := ho.slot_exists hn
  refine ⟨_, by rw [step, hx]; rfl, ?_, ?_, ?_⟩
  · apply (ho.separate.insert_identity _ _).remake
    rw [map_modify (d := id), List.modify_id]
    exact fun _ => rfl
  · rw [Family.step, ← ho.slots]
    exact map_modify o.infos n fun _ => rfl
  · rw [Family.step, ← ho.identities, ho.separate.identities x hmem]
    simp only [Heap.insertIdentity, Function.update_self]

theorem detach (ho : o.Shows f) (hn : n < f.slots.length) :
    ∃ p, o.step (.detach n) = some p ∧ p.Shows (f.step (.detach n)) := by
  obtain ⟨x, hx, hmem, hslot⟩ := ho.slot_exists hn
  let g := o.heap.newProperties (o.heap.shown x.properties)
  have hrun : o.heap.copyProperties x.properties = some g :=
    Heap.copy_properties_run (ho.separate.sound x hmem) (ho.separate.known x hmem).1
  obtain ⟨hspares, hseparate, hcopy⟩ := ho.separate.detached hmem
  refine ⟨⟨g.newRows (g.rows x.rows), _⟩, ?_, hseparate, ?_, ?_⟩
  · simp only [step, hx, hrun, g, Option.bind_eq_bind, Option.bind_some, Option.pure_def]
  · rw [List.map_append, List.map_singleton, hcopy, Family.step, ← ho.slots, hslot]
    congr 1
    exact List.map_congr_left fun y hy => ho.separate.totals_spared hspares hy
  · exact (congrFun hspares.identities 0).trans ho.identities

/-- The rows come in a map of the caller's that no info refers to. -/
theorem rows (ho : o.Shows f) (hn : n < f.slots.length) {rs : RowCounts} (hrs : rs.keys.Nodup) :
    ∃ p, o.step (.rows n rs) = some p ∧ p.Shows (f.step (.rows n rs)) := by
  obtain ⟨x, hx, hmem, -⟩ := ho.slot_exists hn
  let g := o.heap.newRows rs
  have hg : o.heap.Spares g := o.heap.new_rows_spares rs
  have hs := ho.separate.spares hg
  have hmade : g.rows o.heap.next = rs := Function.update_self _ _ _
  have hrun : g.addRows x.rows o.heap.next = some (g.countRows x.rows rs) := by
    rw [Heap.add_rows_run (by rwa [hmade]), hmade]
  refine ⟨⟨g.countRows x.rows rs, o.infos⟩, ?_, hs.count_rows hmem rs, ?_, ho.identities⟩
  · simp only [step, hx, hrun, g, Option.bind_eq_bind, Option.bind_some, Option.pure_def]
  · rw [Family.step, ← ho.slots]
    apply slots_modified hx
    · rw [Separate.totals_counted, ho.separate.totals_spared hg hmem]
    · intro m y hy hne
      rw [Separate.totals_uncounted _ _ (Separate.other_slot hs.rows hx hy hne),
        ho.separate.totals_spared hg (List.mem_of_getElem? hy)]

/-- The counters of the caller's map are copied, not passed on. -/
theorem properties (ho : o.Shows f) (hn : n < f.slots.length) {ps : PropertyCounts}
    (hps : ps.keys.Nodup) :
    ∃ p, o.step (.properties n ps) = some p ∧ p.Shows (f.step (.properties n ps)) := by
  obtain ⟨x, hx, hmem, -⟩ := ho.slot_exists hn
  let g := o.heap.newProperties ps
  have hg : o.heap.Spares g := o.heap.new_properties_spares hps
  have hs := ho.separate.spares hg
  have hdisjoint : (g.held o.heap.next).Disjoint (g.held x.properties) := by
    intro c hmade hown
    rw [Heap.held, hg.properties _ (ho.separate.known x hmem).1] at hown
    exact Nat.not_le_of_lt ((ho.separate.sound x hmem).known c hown)
      (Heap.new_properties_held hps hmade)
  obtain ⟨k, hrun, hk⟩ := Heap.add_properties_writes (hs.sound x hmem)
    (Heap.new_properties_writes hps).sound fun _ => hdisjoint
  rw [Heap.new_properties_shown hps] at hk
  refine ⟨⟨k, o.infos⟩, ?_, hs.writes hmem hk, ?_, ?_⟩
  · simp only [step, hx, hrun, g, Option.bind_eq_bind, Option.bind_some, Option.pure_def]
  · rw [Family.step, ← ho.slots]
    apply slots_modified hx
    · rw [Separate.totals_written hk, ho.separate.totals_spared hg hmem]
    · intro m y hy hne
      have hym := List.mem_of_getElem? hy
      rw [hs.totals_unwritten hmem hk hym (Separate.other_slot hs.properties hx hy hne),
        ho.separate.totals_spared hg hym]
  · exact (congrFun (hk.identities.trans hg.identities) 0).trans ho.identities

/-- The other slot may be the same one. -/
theorem absorb (ho : o.Shows f) (hn : n < f.slots.length) (hm : m < f.slots.length) :
    ∃ p, o.step (.absorb n m) = some p ∧ p.Shows (f.step (.absorb n m)) := by
  obtain ⟨x, hx, hmem, -⟩ := ho.slot_exists hn
  obtain ⟨y, hy, hym, hslot⟩ := ho.slot_exists hm
  obtain ⟨g, hrun, hg⟩ := Heap.add_properties_writes (ho.separate.sound x hmem)
    (ho.separate.sound y hym) (ho.separate.counters y hym x hmem)
  have hs := ho.separate.writes hmem hg
  have hrows : g.addRows x.rows y.rows = some (g.countRows x.rows (o.heap.rows y.rows)) := by
    rw [Heap.add_rows_run (hs.actions y hym), hg.rows]
  refine ⟨⟨g.countRows x.rows (o.heap.rows y.rows), o.infos⟩, ?_, hs.count_rows hmem _, ?_, ?_⟩
  · simp only [step, hx, hy, hrun, hrows, Option.bind_eq_bind, Option.bind_some, Option.pure_def]
  · rw [Family.step, ← ho.slots, hslot]
    apply slots_modified hx
    · rw [Separate.totals_counted, Separate.totals_written hg]
      rfl
    · intro m z hz hne
      rw [Separate.totals_uncounted _ _ (Separate.other_slot hs.rows hx hz hne),
        ho.separate.totals_unwritten hmem hg (List.mem_of_getElem? hz)
          (Separate.other_slot hs.properties hx hz hne)]
  · exact (congrFun hg.identities 0).trans ho.identities

theorem step (ho : o.Shows f) {op : Family.Op} (hop : op.Within f.slots.length) :
    ∃ p, o.step op = some p ∧ p.Shows (f.step op) := by
  cases op with
  | merge s i duration success => exact ho.merge hop i duration success
  | detach s => exact ho.detach hop
  | rows s rs => exact ho.rows hop.1 hop.2
  | properties s ps => exact ho.properties hop.1 hop.2
  | absorb s t => exact ho.absorb hop.1 hop.2

/-- What an operation on references does is what the operation on values says. -/
theorem run (ho : o.Shows f) {ops : List Family.Op} (hops : f.Existing ops) :
    ∃ p, o.run ops = some p ∧ p.Shows (f.run ops) := by
  induction ops generalizing o f with
  | nil => exact ⟨o, rfl, ho⟩
  | cons op ops ih =>
    obtain ⟨p, hstep, hp⟩ := ho.step hops.1
    obtain ⟨r, hrun, hr⟩ := ih hp hops.2
    refine ⟨r, ?_, hr⟩
    rw [Objects.run, List.foldlM_cons, hstep]
    exact hrun

end Shows

end Objects

end QueryTelemetry
