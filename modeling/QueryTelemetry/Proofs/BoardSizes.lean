import QueryTelemetry.Proofs.Slowest
import QueryTelemetry.Proofs.Variables

/-!
# Sizes of leaderboards

The size of the leaderboards is settled before a run, and each of them is made in the middle of it,
when the first completion of its kind comes. A size that is not positive would end the run there.
But no settings have one: such a number in the environment gives way to the default, and settings
that are given one are refused at once. So every leaderboard is made, and of the size that was
settled.
-/

set_option autoImplicit false

namespace QueryTelemetry

/-! ## Settings -/

section Capacities
variable (name : String) (n : Int)

theorem Capacity.of_int_iff (c : Capacity) : Capacity.ofInt? n = some c ↔ (c.val : Int) = n := by
  obtain ⟨m, hm⟩ := c
  unfold Capacity.ofInt?
  split
  · simp only [Option.some.injEq, Subtype.mk.injEq]
    omega
  · simp only [reduceCtorEq, false_iff]
    omega

theorem capacity_ok_iff (c : Capacity) : capacityOf name n = .ok c ↔ (c.val : Int) = n := by
  rw [← Capacity.of_int_iff, capacityOf]
  cases Capacity.ofInt? n <;> simp

theorem capacity_error_iff (e : BadSize) :
    capacityOf name n = .error e ↔ n < 1 ∧ e = ⟨name, n⟩ := by
  rw [← Capacity.of_int_none_iff, capacityOf]
  cases Capacity.ofInt? n <;> simp [eq_comm]

end Capacities

namespace Settings

/-- A size that is accepted is taken, and nothing else changes. -/
theorem with_size_ok_iff (s t : Settings) (n : Int) : s.withSize n = .ok t ↔
    (t.topSlowSize.val : Int) = n ∧ t = { s with topSlowSize := t.topSlowSize } := by
  rw [← capacity_ok_iff "top_slow_size", withSize]
  cases capacityOf "top_slow_size" n with
  | error e => simp [Except.map]
  | ok c =>
    constructor
    · rintro ⟨⟩
      exact ⟨rfl, rfl⟩
    · rintro ⟨hc, ht⟩
      rw [ht, Except.ok.inj hc]
      rfl

theorem with_size_error_iff (s : Settings) (n : Int) (e : BadSize) :
    s.withSize n = .error e ↔ n < 1 ∧ e = ⟨"top_slow_size", n⟩ := by
  rw [← capacity_error_iff, withSize]
  cases capacityOf "top_slow_size" n <;> simp [Except.map]

theorem size_of_environment (env : String → Option String) :
    ((ofEnvironment env).topSlowSize.val : Int) =
      Environment.integer (env "PERFSTATS_TOP_SLOW_SIZE") 30 (some 1) := by
  have hpositive : 1 ≤ Environment.integer (env "PERFSTATS_TOP_SLOW_SIZE") 30 (some 1) :=
    (Environment.integer_gives _ _ _).least_le (by decide)
  cases hc : Capacity.ofInt? (Environment.integer (env "PERFSTATS_TOP_SLOW_SIZE") 30 (some 1)) with
  | none =>
    rw [Capacity.of_int_none_iff] at hc
    omega
  | some c =>
    rw [← (Capacity.of_int_iff _ c).mp hc, ofEnvironment, hc]
    rfl

end Settings

/-! ## Runs -/

namespace Aggregator

/-- The board of a kind. If there is none yet, one is made of the size, which has to be positive. -/
def board (a : Aggregator) (size : Int) (kind : QueryKind) :
    Except BadSize (Leaderboard Completion) :=
  match a.slowest.get? kind with
  | some b => .ok b
  | none => (capacityOf "capacity" size).map .empty

def attempt (a : Aggregator) (size : Int) : Record → Except BadSize Aggregator
  | .completion c => (a.board size c.kind).map fun b =>
    { a with
      table := a.table.merge c.kind c.text c.identity c.duration c.success
      slowest := a.slowest.put c.kind (b.put c.duration c) }
  | r => .ok (a.step r)

/-- A size that was settled is never refused. -/
theorem attempt_settled (a : Aggregator) (r : Record) :
    a.attempt a.capacity.val r = .ok (a.step r) := by
  cases r with
  | reads _ | rows _ | property _ => rfl
  | completion c =>
    have hboard : a.board a.capacity.val c.kind =
        .ok ((a.slowest.get? c.kind).getD (.empty a.capacity)) := by
      unfold board
      cases a.slowest.get? c.kind with
      | some b => rfl
      | none =>
        rw [(capacity_ok_iff "capacity" _ a.capacity).mpr rfl]
        rfl
    rw [attempt, hboard, step, complete, Assoc.update_eq_put]
    rfl

theorem board_positive (a : Aggregator) {size : Int} (h : 1 ≤ size) (kind : QueryKind) :
    ∃ b, a.board size kind = .ok b := by
  unfold board
  cases a.slowest.get? kind with
  | some b => exact ⟨b, rfl⟩
  | none =>
    let c : Capacity := ⟨size.toNat, by omega⟩
    have hc : capacityOf "capacity" size = .ok c :=
      (capacity_ok_iff "capacity" size c).mpr (Int.toNat_of_nonneg (by omega))
    rw [hc]
    exact ⟨_, rfl⟩

theorem attempt_positive (a : Aggregator) {size : Int} (h : 1 ≤ size) (r : Record) :
    ∃ b, a.attempt size r = .ok b := by
  cases r with
  | reads _ | rows _ | property _ => exact ⟨_, rfl⟩
  | completion c =>
    obtain ⟨b, hb⟩ := a.board_positive h c.kind
    rw [attempt, hb]
    exact ⟨_, rfl⟩

/-- Before there is a board the first completion needs one. -/
theorem attempt_refused (a : Aggregator) (ha : a.slowest = []) {size : Int} (h : size < 1)
    (r : Record) : a.attempt size r =
      match r with
      | .completion _ => .error ⟨"capacity", size⟩
      | _ => .ok (a.step r) := by
  cases r with
  | reads _ | rows _ | property _ => rfl
  | completion c =>
    have hcapacity := (capacity_error_iff "capacity" size ⟨"capacity", size⟩).mpr ⟨h, rfl⟩
    rw [attempt, board, ha, Assoc.get?, hcapacity]
    rfl

end Aggregator

namespace Session

def attempt (n : Session) (size : Int) : Call → Except BadSize Session
  | .deliver r => (n.aggregator.attempt size r).map fun a => { n with aggregator := a }
  | .results => .ok (n.step .results)

def attempts (n : Session) (size : Int) (calls : List Call) : Except BadSize Session :=
  calls.foldlM (fun n c => n.attempt size c) n

theorem attempts_of_ok {n m : Session} {size : Int} {c : Call} (h : n.attempt size c = .ok m)
    (calls : List Call) : n.attempts size (c :: calls) = m.attempts size calls := by
  rw [attempts, List.foldlM_cons, h]
  rfl

theorem attempts_settled (n : Session) (calls : List Call) :
    n.attempts n.aggregator.capacity.val calls = .ok (n.run calls) := by
  induction calls generalizing n with
  | nil => rfl
  | cons c calls ih =>
    have hcapacity : (n.step c).aggregator.capacity = n.aggregator.capacity := by
      cases c with
      | deliver r => exact n.aggregator.step_capacity r
      | results => rfl
    have hstep : n.attempt n.aggregator.capacity.val c = .ok (n.step c) := by
      cases c with
      | deliver r =>
        rw [attempt, Aggregator.attempt_settled]
        rfl
      | results => rfl
    rw [attempts_of_ok hstep, ← hcapacity]
    exact ih (n.step c)

theorem attempts_positive (n : Session) {size : Int} (h : 1 ≤ size) (calls : List Call) :
    ∃ m, n.attempts size calls = .ok m := by
  induction calls generalizing n with
  | nil => exact ⟨n, rfl⟩
  | cons c calls ih =>
    have hstep : ∃ m, n.attempt size c = .ok m := by
      cases c with
      | deliver r =>
        obtain ⟨a, ha⟩ := n.aggregator.attempt_positive h r
        rw [attempt, ha]
        exact ⟨_, rfl⟩
      | results => exact ⟨_, rfl⟩
    obtain ⟨m, hm⟩ := hstep
    rw [attempts_of_ok hm]
    exact ih m

theorem attempts_refused (n : Session) (hn : n.aggregator.slowest = []) {size : Int}
    (h : size < 1) (calls : List Call) : n.attempts size calls =
      if (history calls).completions = [] then .ok (n.run calls)
      else .error ⟨"capacity", size⟩ := by
  induction calls generalizing n with
  | nil => rfl
  | cons c calls ih =>
    cases c with
    | results => exact ih (n.step .results) hn
    | deliver r =>
      have hstep := n.aggregator.attempt_refused hn h r
      cases r with
      | completion c =>
        rw [attempts, List.foldlM_cons, attempt, hstep]
        rfl
      | reads r => exact ih (n.step (.deliver (.reads r))) hn
      | rows r => exact ih (n.step (.deliver (.rows r))) hn
      | property r => exact ih (n.step (.deliver (.property r))) hn

/-- A run ends early exactly if the size is not positive and something completes. -/
theorem attempts_error_iff (t : Settings) (size : Int) (calls : List Call) (e : BadSize) :
    (start t).attempts size calls = .error e ↔
      size < 1 ∧ (history calls).completions ≠ [] ∧ e = ⟨"capacity", size⟩ := by
  by_cases h : size < 1
  · rw [attempts_refused _ rfl h]
    split
    · rename_i hnone
      simp [hnone]
    · rename_i hsome
      rw [Except.error.injEq]
      exact ⟨fun he => ⟨h, hsome, he.symm⟩, fun he => he.2.2.symm⟩
  · obtain ⟨m, hm⟩ := attempts_positive (start t) (not_lt.mp h) calls
    simp [hm, h]

/-- A kind has a board from its first completion on, and it is of the settled size. -/
theorem capacity_of_board (t : Settings) (calls : List Call) (kind : QueryKind) :
    (((start t).run calls).aggregator.slowest.get? kind).map (·.capacity) =
      if (history calls).completed kind = [] then none else some t.topSlowSize := by
  have haggregator : ((start t).run calls).aggregator = (Aggregator.start t).run (history calls) :=
    run_aggregator _ calls
  rw [haggregator, slowest_after_run]
  split
  · rfl
  · rw [Option.map_some, Leaderboard.fill_capacity]

end Session

/-- Every environment makes settings, with the numbers and flags that it names where they will do.
Only a size that is not positive is refused, and that is when the settings are made. So in any
settings a run is never refused a leaderboard, and all of them have the size of the settings. -/
theorem leaderboards_of_any_settings (env : String → Option String) (t : Settings)
    (calls : List Call) :
    let s := Settings.ofEnvironment env
    let after := (Session.start t).run calls
    s.withSize (Environment.integer (env "PERFSTATS_TOP_SLOW_SIZE") 30 (some 1)) = .ok s ∧
    (∀ n : Int, s.topSlowSize.val = n ↔
      Environment.Gives (env "PERFSTATS_TOP_SLOW_SIZE") (some 1) 30 n) ∧
    (∀ n, s.reportVersion = n ↔ Environment.Gives (env "PERFSTATS_REPORT_VERSION") none 1 n) ∧
    (∀ b, s.rowsByKind = b ↔
      Environment.Decides (env "PERFSTATS_SCOPE_ROWS_BY_KIND") false b) ∧
    (∀ b, s.writeTables = b ↔ Environment.Decides (env "PERFSTATS_WRITE_PARQUET") true b) ∧
    (∀ n e, t.withSize n = .error e ↔ n < 1 ∧ e = ⟨"top_slow_size", n⟩) ∧
    (∀ n u, t.withSize n = .ok u ↔
      (u.topSlowSize.val : Int) = n ∧ u = { t with topSlowSize := u.topSlowSize }) ∧
    (Session.start t).attempts t.topSlowSize.val calls = .ok after ∧
    (∀ size e, (Session.start t).attempts size calls = .error e ↔
      size < 1 ∧ (history calls).completions ≠ [] ∧ e = ⟨"capacity", size⟩) ∧
    ∀ kind, (after.aggregator.slowest.get? kind).map (·.capacity) =
      if (history calls).completed kind = [] then none else some t.topSlowSize := by
  intro s after
  have hsize : (s.topSlowSize.val : Int) =
      Environment.integer (env "PERFSTATS_TOP_SLOW_SIZE") 30 (some 1) :=
    Settings.size_of_environment env
  have hversion : s.reportVersion =
      Environment.integer (env "PERFSTATS_REPORT_VERSION") 1 none := rfl
  refine ⟨(s.with_size_ok_iff s _).mpr ⟨hsize, rfl⟩, fun n => ?_, fun n => ?_,
    fun b => Environment.flag_iff b, fun b => Environment.flag_iff b, t.with_size_error_iff,
    fun n u => t.with_size_ok_iff u n, (Session.start t).attempts_settled calls,
    fun size => Session.attempts_error_iff t size calls, Session.capacity_of_board t calls⟩
  · rw [hsize]
    exact Environment.integer_iff n
  · rw [hversion]
    exact Environment.integer_iff n

/-- Digits of another script, between blanks. -/
example : (Settings.ofEnvironment fun name =>
    if name = "PERFSTATS_TOP_SLOW_SIZE" then some "\u2003+\u0660_\u0662\n"
    else none).topSlowSize.val =
      2 := by
  decide +kernel

end QueryTelemetry
