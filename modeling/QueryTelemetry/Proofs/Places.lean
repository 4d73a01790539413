import QueryTelemetry.Report.Columns

/-!
# Where paths lead

A path leads to the same place in every tree that has the folders on its way, and only the folders
decide whether it leads there. So paths can be told apart by their text, before any file is written,
and what was found at the end of a path is found there as long as no folder is taken away.
-/

set_option autoImplicit false

namespace QueryTelemetry

namespace Place

def walk (p : Place) : List String → Except FileError Place
  | [] => .ok p
  | n :: r =>
    match p.step n with
    | .ok q => walk q r
    | .error e => .error e

theorem walk_append (p : Place) (ns ms : List String) :
    p.walk (ns ++ ms) = (p.walk ns).bind (·.walk ms) := by
  induction ns generalizing p with
  | nil => rfl
  | cons n ns ih =>
    rw [List.cons_append, walk, walk]
    cases p.step n with
    | ok q => exact ih q
    | error e => rfl

theorem step_name {p q : Place} {name : String} (hup : name ≠ "..") (hdot : name ≠ ".")
    (h : p.step name = .ok q) : q = p ++ [name] := by
  rw [step, if_neg hup, if_neg hdot] at h
  split at h
  · cases h
  · exact (Except.ok.inj h).symm

end Place

namespace Path

def place (path : Path) : Except FileError Place := (Place.start path).walk path.parts

/-- A name that is no step of its own stands last in the place of a child. -/
theorem place_child {root : Path} {name : String} {p : Place} (hup : name ≠ "..")
    (hdot : name ≠ ".") (h : (root.child name).place = .ok p) : p.getLast? = some name := by
  have hplace : (root.child name).place = (Place.start root).walk (root.parts ++ [name]) := rfl
  rw [hplace, Place.walk_append] at h
  cases hq : (Place.start root).walk root.parts with
  | error e => rw [hq] at h; cases h
  | ok q =>
    rw [hq, Except.bind, Place.walk] at h
    cases hr : q.step name with
    | error e => rw [hr] at h; cases h
    | ok r =>
      rw [hr] at h
      cases h
      rw [Place.step_name hup hdot hr]
      exact List.getLast?_concat

def Apart (path other : Path) : Prop := ∀ p, path.place = .ok p → other.place ≠ .ok p

/-- Children of one folder or of two are apart if their names differ. -/
theorem children_apart {root other : Path} {a b : String} (hab : a ≠ b) (ha : a ≠ ".." ∧ a ≠ ".")
    (hb : b ≠ ".." ∧ b ≠ ".") : (root.child a).Apart (other.child b) := by
  intro p hp ho
  have hlast := place_child hb.1 hb.2 ho
  rw [place_child ha.1 ha.2 hp] at hlast
  exact hab (Option.some.inj hlast)

theorem plain_of_free {path : Path} (hc : ':' ∉ path.text.toList)
    (hh : path.text.toList.head? ≠ some '~') : path.Plain where
  scheme _ _ h := absurd (h ▸ List.mem_append_right _ List.mem_cons_self) hc
  home := hh

end Path

namespace FileTree

theorem walk_of_follow {t : FileTree} {p q : Place} {names : List String}
    (h : t.follow p names = .ok q) : p.walk names = .ok q := by
  induction names generalizing p with
  | nil => exact h
  | cons n r ih =>
    rw [follow] at h
    split at h
    · rw [Place.walk]
      cases hs : p.step n with
      | ok q => rw [hs] at h; exact ih h
      | error e => rw [hs] at h; cases h
    · split at h <;> cases h

theorem locate_ok {t : FileTree} {path : Path} {p : Place} (h : t.locate path = .ok p) :
    path.checkText = .ok () ∧ t.follow (Place.start path) path.parts = .ok p := by
  rw [locate] at h
  cases hc : path.checkText with
  | error e => rw [hc] at h; cases h
  | ok _ => rw [hc] at h; exact ⟨rfl, h⟩

theorem place_of_locate {t : FileTree} {path : Path} {p : Place} (h : t.locate path = .ok p) :
    path.place = .ok p :=
  walk_of_follow (locate_ok h).2

theorem follow_grows {t u : FileTree} (hg : ∀ q, t.isFolder q → u.isFolder q) {p q : Place}
    {names : List String} (h : t.follow p names = .ok q) : u.follow p names = .ok q := by
  induction names generalizing p with
  | nil => exact h
  | cons n r ih =>
    rw [follow] at h ⊢
    split at h
    · rename_i hp
      rw [if_pos (hg p hp)]
      cases hs : p.step n with
      | ok q => rw [hs] at h; exact ih h
      | error e => rw [hs] at h; cases h
    · split at h <;> cases h

theorem locate_grows {t u : FileTree} (hg : ∀ q, t.isFolder q → u.isFolder q) {path : Path}
    {p : Place} (h : t.locate path = .ok p) : u.locate path = .ok p := by
  obtain ⟨hc, hf⟩ := locate_ok h
  rw [locate, hc]
  exact follow_grows hg hf

theorem read_ok {t : FileTree} {path : Path} {c : Content} (h : t.read path = .ok c) :
    ∃ p, t.locate path = .ok p ∧ t.isFolder p = false ∧ t.files.get? p = some c := by
  rw [read] at h
  cases hp : t.locate path with
  | error e => rw [hp] at h; cases h
  | ok p =>
    rw [hp] at h
    simp only [bind, Except.bind] at h
    split at h
    · cases h
    · rename_i hf
      split at h
      · rename_i d hd
        cases h
        exact ⟨p, rfl, by simpa using hf, hd⟩
      · cases h

theorem read_at {t : FileTree} {path : Path} {p : Place} {c : Content} (hp : t.locate path = .ok p)
    (hf : t.isFolder p = false) (hc : t.files.get? p = some c) : t.read path = .ok c := by
  simp only [read, hp, bind, Except.bind, hf, hc]
  rfl

theorem write_ok {t u : FileTree} {path : Path} {c : Content} (h : t.write path c = .ok u) :
    ∃ p, t.locate path = .ok p ∧ u = { t with files := t.files.put p c } := by
  rw [write] at h
  cases hp : t.locate path with
  | error e => rw [hp] at h; cases h
  | ok p =>
    rw [hp] at h
    simp only [bind, Except.bind] at h
    split at h
    · cases h
    · cases h
      exact ⟨p, rfl, rfl⟩

def contentAt? (t : FileTree) (path : Path) : Option Content :=
  match path.place with
  | .ok p => t.files.get? p
  | .error _ => none

theorem content_at {t : FileTree} {path : Path} {p : Place} (h : path.place = .ok p) :
    t.contentAt? path = t.files.get? p := by
  rw [contentAt?, h]

theorem content_of_read {t : FileTree} {path : Path} {c : Content} (h : t.read path = .ok c) :
    t.contentAt? path = some c := by
  obtain ⟨p, hl, -, hc⟩ := read_ok h
  rw [content_at (place_of_locate hl), hc]

end FileTree

end QueryTelemetry
