import QueryTelemetry.Proofs.Outcomes

/-!
# Sections of several handlers

A name that several handlers use stands in the report where it first came up, with what the last of
them put under it. Each time it comes up again there is one warning, so the warnings count what the
report has less than all handlers together.
-/

set_option autoImplicit false

namespace QueryTelemetry

/-- Handler by handler, the names that an earlier one used, after some handlers before all of them.
-/
def clashesBehind (earlier parts : List Report) : List String :=
  (parts.mapIdx fun i p => p.keys.filter fun n => (earlier ++ parts.take i).any (·.has n)).flatten

def clashLine (name : String) : LogLine :=
  ⟨.warning, "report.pipeline", "Section " ++ name ++ " produced by several handlers"⟩

def warningsOf (lines : List LogLine) : List LogLine := lines.filter (·.level = .warning)

theorem clashes_cons (earlier : List Report) (p : Report) (parts : List Report) :
    clashesBehind earlier (p :: parts) =
      p.keys.filter (fun n => earlier.any (·.has n)) ++ clashesBehind (earlier ++ [p]) parts := by
  simp [clashesBehind, List.mapIdx_cons]

/-! ## The merged report -/

theorem merged_eq_gather (parts : List Report) : parts.foldl mergeSections [] =
    Assoc.gather Prod.fst (fun p _ => p.2) [] parts.flatten := by
  rw [Assoc.gather, List.foldl_flatten]
  rfl

theorem merged_keys (parts : List Report) :
    Assoc.keys (parts.foldl mergeSections []) = (parts.flatMap Assoc.keys).eraseDups := by
  rw [merged_eq_gather, Assoc.keys_gather, List.map_flatten, List.flatMap]
  rfl

theorem merged_has (parts : List Report) (name : String) :
    Assoc.has (parts.foldl mergeSections []) name = parts.any (·.has name) := by
  rw [Bool.eq_iff_iff, Assoc.has_iff, merged_keys, List.mem_eraseDups, List.mem_flatMap,
    List.any_eq_true]
  simp only [Assoc.has_iff]

theorem values_under {p : Report} (h : p.keys.Nodup) (name : String) :
    (p.filter (·.1 = name)).map Prod.snd = (p.get? name).toList := by
  induction p with
  | nil => rfl
  | cons b p ih =>
    obtain ⟨a, v⟩ := b
    obtain ⟨hnew, hrest⟩ := List.nodup_cons.mp h
    by_cases ha : a = name
    · subst ha
      have hnone : p.filter (·.1 = a) = [] := filter_unseen hnew
      simp [Assoc.get?, hnone]
    · rw [List.filter_cons_of_neg (by simpa using ha), ih hrest, Assoc.get?, if_neg ha]

theorem last_written {α : Type} (xs : List α) (o : Option α) :
    xs.foldl (fun _ x => some x) o = xs.getLast?.or o := by
  induction xs using List.reverseRecOn with
  | nil => rfl
  | append_singleton xs x _ => simp

theorem merged_get {parts : List Report} (h : ∀ p ∈ parts, p.keys.Nodup) (name : String) :
    Assoc.get? (parts.foldl mergeSections []) name =
      (parts.filterMap (·.get? name)).getLast? := by
  have hvalues : (parts.flatten.filter (·.1 = name)).map Prod.snd =
      parts.filterMap (·.get? name) := by
    induction parts with
    | nil => rfl
    | cons p parts ih =>
      obtain ⟨hp, hparts⟩ := List.forall_mem_cons.mp h
      rw [List.flatten_cons, List.filter_append, List.map_append, ih hparts, values_under hp,
        List.filterMap_cons]
      cases p.get? name <;> rfl
  rw [merged_eq_gather, Assoc.get_gather, ← hvalues, ← Option.or_none (o := List.getLast? _),
    ← last_written, List.foldl_map]
  rfl

/-- Every section comes up for the first time or again. -/
theorem clashes_length {parts : List Report} (h : ∀ p ∈ parts, p.keys.Nodup)
    (earlier : List Report) :
    (clashesBehind earlier parts).length +
        ((earlier ++ parts).flatMap Assoc.keys).eraseDups.length =
      (earlier.flatMap Assoc.keys).eraseDups.length + (parts.map List.length).sum := by
  induction parts generalizing earlier with
  | nil => simp [clashesBehind]
  | cons p parts ih =>
    obtain ⟨hp, hparts⟩ := List.forall_mem_cons.mp h
    have hrest := ih hparts (earlier ++ [p])
    have hseen (n : String) :
        earlier.any (·.has n) = (earlier.flatMap Assoc.keys).contains n := by
      rw [Bool.eq_iff_iff, List.any_eq_true, List.contains_iff_mem, List.mem_flatMap]
      simp only [Assoc.has_iff]
    have hnew : ((earlier ++ [p]).flatMap Assoc.keys).eraseDups.length =
        (earlier.flatMap Assoc.keys).eraseDups.length +
          (p.keys.filter fun n => !earlier.any (·.has n)).length := by
      rw [List.flatMap_append, List.flatMap_singleton, List.eraseDups_append, List.length_append,
        List.removeAll]
      simp only [hseen]
      rw [first_seen_distinct (hp.filter _)]
    have hsplit := List.length_eq_length_filter_add (l := p.keys) (fun n => earlier.any (·.has n))
    have hkeys : p.keys.length = p.length := List.length_map Prod.fst
    rw [clashes_cons, List.length_append, List.map_cons, List.sum_cons]
    rw [List.append_assoc, List.singleton_append] at hrest
    omega

/-! ## Collecting -/

section Collecting
variable (w : Workspace)

theorem results_run {h : Handler} {sections : Report} (hs : h.sections? = some sections) :
    ∃ v lines, h.results.run.run w = (.ok sections, v) ∧ v.log = w.log ++ lines ∧
      warningsOf lines = [] := by
  induction h with
  | aggregator a =>
    have hs : a.report? = some sections := hs
    obtain ⟨v, message, hrun, hv⟩ : ∃ v message,
        (Handler.aggregator a).results.run.run w = (.ok sections, v) ∧
        v.log = w.log ++ [⟨.info, "handlers.query", message⟩] := by
      rw [Handler.results, hs]
      exact ⟨_, _, rfl, rfl⟩
    exact ⟨v, _, hrun, hv, rfl⟩
  | custom c calls =>
    rw [Handler.sections?] at hs
    have hs : c.sections calls = .ok sections := by
      cases hc : c.sections calls with
      | ok s => rw [hc] at hs; exact congrArg Except.ok (Option.some.inj hs)
      | error e => rw [hc] at hs; cases hs
    refine ⟨w, [], ?_, (List.append_nil _).symm, rfl⟩
    rw [Handler.results, hs, Work.run_of_except]
  | guarded h ih => exact ih hs

theorem warn_run (report sections : Report) :
    (warnClashes report sections).run.run w = (.ok (), { w with
      log := w.log ++ (sections.keys.filter report.has).map clashLine }) := by
  induction sections generalizing w with
  | nil => exact congrArg (fun log => (Except.ok (), { w with log })) (List.append_nil w.log).symm
  | cons p sections ih =>
    rw [warnClashes, List.forM, ← warnClashes, Work.run_bind, Assoc.keys, List.map_cons,
      List.filter_cons]
    by_cases hp : report.has p.1 = true
    · rw [if_pos hp, if_pos hp, Work.run_log_line]
      dsimp only
      rw [ih, List.map_cons, List.append_cons w.log (clashLine p.1)]
      rfl
    · rw [if_neg hp, if_neg hp]
      exact ih w

theorem collect_from_run {hs : List Handler} {parts : List Report}
    (hparts : hs.mapM Handler.sections? = some parts) (earlier : List Report) :
    ∃ v lines, (collectFrom (earlier.foldl mergeSections []) hs).run.run w =
        (.ok ((earlier ++ parts).foldl mergeSections []), v) ∧
      v.log = w.log ++ lines ∧ warningsOf lines = (clashesBehind earlier parts).map clashLine := by
  induction hs generalizing w earlier parts with
  | nil =>
    obtain rfl : parts = [] := (Option.some.inj hparts).symm
    rw [List.append_nil]
    exact ⟨w, [], rfl, (List.append_nil _).symm, rfl⟩
  | cons h hs ih =>
    rw [List.mapM_cons] at hparts
    obtain ⟨p, hp, hparts⟩ := Option.bind_eq_some_iff.mp hparts
    obtain ⟨later, hlater, hparts⟩ := Option.bind_eq_some_iff.mp hparts
    cases hparts
    obtain ⟨u, told, hresults, hu, htold⟩ := results_run w hp
    let warned := (p.keys.filter fun n => earlier.any (·.has n)).map clashLine
    have hwarn : (warnClashes (earlier.foldl mergeSections []) p).run.run u =
        (.ok (), { u with log := u.log ++ warned }) := by
      rw [warn_run, funext (merged_has earlier)]
    obtain ⟨v, lines, hrun, hv, hlines⟩ :=
      ih { u with log := u.log ++ warned } hlater (earlier ++ [p])
    refine ⟨v, told ++ (warned ++ lines), ?_, ?_, ?_⟩
    · rw [collectFrom, Work.run_bind, hresults]
      dsimp only
      rw [Work.run_bind, hwarn]
      dsimp only
      rw [List.foldl_append] at hrun
      rw [List.append_cons]
      exact hrun
    · rw [hv, hu, List.append_assoc, List.append_assoc]
    · have hall : warningsOf warned = warned := by
        apply List.filter_eq_self.mpr
        intro l hl
        obtain ⟨n, -, rfl⟩ := List.mem_map.mp hl
        rfl
      rw [warningsOf, List.filter_append, List.filter_append, ← warningsOf, ← warningsOf,
        ← warningsOf, htold, hall, hlines, clashes_cons, List.map_append]
      rfl

end Collecting

/-- Collecting from handlers that can write their sections merges the sections. Each name stands
where it first came up, with what the last handler put under it, and there is a warning for each
time that it came up again: as many as all handlers together have sections more than the report. -/
theorem collect_merges_sections {hs : List Handler} {parts : List Report}
    (hparts : hs.mapM Handler.sections? = some parts) (hkeys : ∀ p ∈ parts, p.keys.Nodup)
    (w : Workspace) :
    ∃ report v lines, (collect hs).run.run w = (.ok report, v) ∧
      report.keys = (parts.flatMap Assoc.keys).eraseDups ∧
      (∀ name, report.get? name = (parts.filterMap (·.get? name)).getLast?) ∧
      v.log = w.log ++ lines ∧
      lines.filter (·.level = .warning) =
        (parts.mapIdx fun i p =>
          p.keys.filter fun n => (parts.take i).any (·.has n)).flatten.map (fun n =>
            ⟨.warning, "report.pipeline", "Section " ++ n ++ " produced by several handlers"⟩) ∧
      (lines.filter (·.level = .warning)).length =
        (parts.map List.length).sum - (parts.flatMap Assoc.keys).eraseDups.length := by
  obtain ⟨v, lines, hrun, hlog, hlines⟩ := collect_from_run w hparts []
  have hcount := clashes_length hkeys []
  rw [List.nil_append, List.flatMap_nil, List.eraseDups_nil, List.length_nil,
    Nat.zero_add] at hcount
  refine ⟨_, v, lines, hrun, merged_keys parts, merged_get hkeys, hlog, ?_, ?_⟩
  · exact hlines
  · rw [← warningsOf, hlines, List.length_map]
    omega

/-- A name that three of four handlers use, one of them behind a guard. -/
theorem collect_of_clashing_sections :
    let hs : List Handler := [.fixed [("b", .int 1), ("a", .int 2)], .recorder [],
      .guarded (.fixed [("calls", .int 3), ("c", .int 4), ("b", .int 5)]), .fixed [("b", .int 6)]]
    let parts : List Report := [[("b", .int 1), ("a", .int 2)], [("calls", .arr [])],
      [("calls", .int 3), ("c", .int 4), ("b", .int 5)], [("b", .int 6)]]
    hs.mapM Handler.sections? = some parts ∧ (∀ p ∈ parts, p.keys.Nodup) ∧
    ∃ report v lines, (collect hs).run.run (.start .usual []) = (.ok report, v) ∧
      report.keys = ["b", "a", "calls", "c"] ∧ report.get? "b" = some (.int 6) ∧
      report.get? "calls" = some (.int 3) ∧ v.log = lines ∧
      lines.filter (·.level = .warning) = ["calls", "b", "b"].map clashLine := by
  intro hs parts
  have hparts : hs.mapM Handler.sections? = some parts := rfl
  have hkeys : ∀ p ∈ parts, p.keys.Nodup := by decide
  obtain ⟨report, v, lines, hrun, hnames, hget, hlog, hlines, -⟩ :=
    collect_merges_sections hparts hkeys (.start .usual [])
  refine ⟨hparts, hkeys, report, v, lines, hrun, ?_, hget "b", hget "calls", hlog, ?_⟩
  · rw [hnames]
    decide
  · rw [hlines]
    rfl

end QueryTelemetry
