import QueryTelemetry.Proofs.Overwriting
import QueryTelemetry.Proofs.Spared

/-!
# Folders on the way

A chain of folders can be made where every name leads to a folder or to nothing, and what it makes
are folders on this way alone. So a file that could be written stays one that can be written while
folders are made and files are written elsewhere.
-/

set_option autoImplicit false

namespace QueryTelemetry

namespace Place

def visits (p : Place) : List String → List Place
  | [] => []
  | n :: r =>
    match p.step n with
    | .ok q => q :: visits q r
    | .error _ => []

theorem visits_cons {p q : Place} {n : String} (h : p.step n = .ok q) (r : List String) :
    p.visits (n :: r) = q :: q.visits r := by
  rw [visits, h]

theorem visits_longer {p q : Place} {names : List String} (h : q ∈ p.visits names)
    (more : List String) : q ∈ p.visits (names ++ more) := by
  induction names generalizing p with
  | nil => cases h
  | cons n r ih =>
    rw [visits] at h
    rw [List.cons_append, visits]
    cases hs : p.step n with
    | error e => rw [hs] at h; cases h
    | ok x =>
      rw [hs] at h
      exact (List.mem_cons.mp h).elim (fun hq => hq ▸ List.mem_cons_self)
        fun hq => List.mem_cons_of_mem x (ih hq)

theorem visits_concat {p q : Place} {names : List String} {name : String} (hup : name ≠ "..")
    (hdot : name ≠ ".") (h : q ∈ p.visits (names ++ [name])) :
    q ∈ p.visits names ∨ q.getLast? = some name := by
  induction names generalizing p with
  | nil =>
    rw [List.nil_append, visits] at h
    cases hs : p.step name with
    | error e => rw [hs] at h; cases h
    | ok x =>
      rw [hs] at h
      rw [List.mem_singleton.mp h, step_name hup hdot hs]
      exact .inr List.getLast?_concat
  | cons n r ih =>
    rw [List.cons_append, visits] at h
    cases hs : p.step n with
    | error e => rw [hs] at h; cases h
    | ok x =>
      rw [hs] at h
      rw [visits_cons hs]
      rcases List.mem_cons.mp h with rfl | h
      · exact .inl List.mem_cons_self
      · exact (ih h).imp_left (List.mem_cons_of_mem x)

end Place

def Path.visits (path : Path) : List Place := (Place.start path).visits path.parts

namespace FileTree
variable {room : Nat} {t u v : FileTree}

/-- Every name leads to a folder, or to nothing and not too far in front of the end. -/
def Passable (room : Nat) (t : FileTree) (p : Place) : List String → Prop
  | [] => True
  | n :: r => ∃ q, p.step n = .ok q ∧
    (t.isFolder q ∨ t.isFile q = false ∧ r.length ≤ room) ∧ t.Passable room q r

theorem Passable.mono {p : Place} {names : List String} (h : t.Passable room p names)
    (hfolders : ∀ q, t.isFolder q → u.isFolder q)
    (hfiles : ∀ q ∈ p.visits names, u.isFile q → t.isFile q) : u.Passable room p names := by
  induction names generalizing p with
  | nil => trivial
  | cons n r ih =>
    obtain ⟨q, hs, hq, hrest⟩ := h
    rw [Place.visits_cons hs] at hfiles
    obtain ⟨hhere, hthere⟩ := List.forall_mem_cons.mp hfiles
    refine ⟨q, hs, hq.imp (hfolders q) fun ⟨hfile, hfar⟩ => ⟨?_, hfar⟩, ih hrest hthere⟩
    cases hu : u.isFile q with
    | false => rfl
    | true => rw [hhere hu] at hfile; cases hfile

def withFolder (t : FileTree) (q : Place) : FileTree :=
  { t with folders := (q.length, q) :: t.folders }

theorem with_folder_iff (q x : Place) : (t.withFolder q).isFolder x ↔ t.isFolder x ∨ x = q := by
  by_cases hx : x = q
  · simp [withFolder, isFolder, hx]
  · simp [withFolder, isFolder, hx]

theorem make_chain_cons {p q : Place} {n : String} (hs : p.step n = .ok q) (r : List String) :
    t.makeChain room p (n :: r) =
      if t.isFolder q then t.makeChain room q r
      else if t.isFile q then (.error .exists, t)
      else if room < r.length then (.error .tooDeep, t)
      else (t.withFolder q).makeChain room q r := by
  rw [makeChain, hs]
  rfl

theorem make_chain_passable {p : Place} {names : List String} (h : t.Passable room p names) :
    (t.makeChain room p names).1 = .ok () := by
  induction names generalizing t p with
  | nil => rfl
  | cons n r ih =>
    obtain ⟨q, hs, hq, hrest⟩ := h
    rw [make_chain_cons hs]
    split
    · exact ih hrest
    · rename_i hfolder
      obtain ⟨hfile, hfar⟩ := hq.resolve_left hfolder
      rw [hfile, if_neg Bool.false_ne_true, if_neg (Nat.not_lt.mpr hfar)]
      refine ih (hrest.mono (fun x hx => ?_) fun x _ hx => hx)
      exact (with_folder_iff q x).mpr (.inl hx)

/-- What was made is passable from the start: the folders that were made on the way stood where no
file was. -/
theorem passable_of_made {p : Place} {names : List String} (hfiles : u.files = t.files)
    (hfolders : ∀ q, u.isFolder q → t.isFolder q ∨ t.isFile q = false ∧ names.length ≤ room)
    (h : (u.makeChain room p names).1 = .ok ()) : t.Passable room p names := by
  induction names generalizing u p with
  | nil => trivial
  | cons n r ih =>
    have hfolders (q : Place) (hq : u.isFolder q) :
        t.isFolder q ∨ t.isFile q = false ∧ r.length ≤ room :=
      (hfolders q hq).imp_right fun ⟨hfile, hfar⟩ => ⟨hfile, Nat.le_of_succ_le hfar⟩
    have hfile (q : Place) : u.isFile q = t.isFile q := by rw [isFile, hfiles, isFile]
    cases hs : p.step n with
    | error e =>
      rw [makeChain, hs] at h
      cases h
    | ok q =>
      rw [make_chain_cons hs] at h
      split at h
      · rename_i hq
        exact ⟨q, hs, hfolders q hq, ih hfiles hfolders h⟩
      · split at h
        · cases h
        · rename_i hnone
          have hnone : t.isFile q = false := by
            rw [← hfile]
            exact Bool.eq_false_iff.mpr hnone
          split at h
          · cases h
          · rename_i hfar
            have hfar := Nat.not_lt.mp hfar
            refine ⟨q, hs, .inr ⟨hnone, hfar⟩, ih (u := u.withFolder q) hfiles (fun x hx => ?_) h⟩
            rcases (with_folder_iff q x).mp hx with hx | rfl
            · exact hfolders x hx
            · exact .inr ⟨hnone, hfar⟩

theorem follow_passable {p : Place} {names : List String} (hp : t.isFolder p ∨ t.isFile p = false)
    (h : t.Passable room p names) :
    (∃ q, t.follow p names = .ok q) ∨ t.follow p names = .error .missing := by
  induction names generalizing p with
  | nil => exact .inl ⟨p, rfl⟩
  | cons n r ih =>
    obtain ⟨q, hs, hq, hrest⟩ := h
    rw [follow]
    split
    · rw [hs]
      exact ih (hq.imp_right And.left) hrest
    · rename_i hfolder
      rw [hp.resolve_left hfolder]
      exact .inr rfl

variable {path : Path}

/-- Folders are made if and only if the way to them is passable. -/
theorem make_folders_iff : (t.makeFolders room path).1 = .ok () ↔
    path.checkText = .ok () ∧ t.Passable room (Place.start path) path.parts := by
  have hsame (q : Place) (hq : t.isFolder q) :
      t.isFolder q ∨ t.isFile q = false ∧ path.parts.length ≤ room := .inl hq
  constructor
  · intro h
    rw [makeFolders, locate] at h
    cases hc : path.checkText with
    | error e =>
      -- a path whose text is refused is refused for its text, and not as a missing one
      have hother : e ≠ .missing := by
        rintro rfl
        unfold Path.checkText at hc
        split at hc
        · cases hc
        · split at hc <;> cases hc
      rw [hc] at h
      cases e <;> first | exact absurd rfl hother | cases h
    | ok _ =>
      rw [hc] at h
      refine ⟨rfl, passable_of_made rfl hsame ?_⟩
      simp only [bind, Except.bind] at h
      split at h
      · exact h
      · exact h
      · cases h
  · rintro ⟨hc, h⟩
    rw [makeFolders, locate, hc]
    simp only [bind, Except.bind]
    rcases follow_passable (.inl (start_folder t path)) h with ⟨q, hq⟩ | hq
    · rw [hq]
      exact make_chain_passable h
    · rw [hq]
      exact make_chain_passable h

theorem folder_stays {q : Place} (hq : t.isFolder q) (p : Place) (names : List String) :
    (t.makeChain room p names).2.isFolder q := by
  have hkeeps : t.Keeps ⟨"", []⟩ (t.makeChain room p names).2 := keeps_make_chain room t p names
  exact hkeeps.folders q hq

/-- Only folders on the way are made. -/
theorem folder_of_chain {p q : Place} {names : List String}
    (hq : (t.makeChain room p names).2.isFolder q) : t.isFolder q ∨ q ∈ p.visits names := by
  induction names generalizing t p with
  | nil => exact .inl hq
  | cons n r ih =>
    cases hs : p.step n with
    | error e =>
      rw [makeChain, hs] at hq
      exact .inl hq
    | ok x =>
      rw [make_chain_cons hs] at hq
      rw [Place.visits_cons hs]
      split at hq
      · exact (ih hq).imp_right (List.mem_cons_of_mem x)
      · split at hq
        · exact .inl hq
        · split at hq
          · exact .inl hq
          · rcases ih hq with hq | hq
            · rcases (with_folder_iff x q).mp hq with hq | rfl
              · exact .inl hq
              · exact .inr List.mem_cons_self
            · exact .inr (List.mem_cons_of_mem x hq)

/-- In the end there are folders all the way. -/
theorem folder_of_visit {p q : Place} {names : List String}
    (h : (t.makeChain room p names).1 = .ok ()) (hq : q ∈ p.visits names) :
    (t.makeChain room p names).2.isFolder q := by
  induction names generalizing t p with
  | nil => cases hq
  | cons n r ih =>
    cases hs : p.step n with
    | error e =>
      rw [makeChain, hs] at h
      cases h
    | ok x =>
      rw [Place.visits_cons hs] at hq
      rw [make_chain_cons hs] at h ⊢
      split at h
      · rename_i hx
        rw [if_pos hx]
        rcases List.mem_cons.mp hq with rfl | hq
        · exact folder_stays hx _ _
        · exact ih h hq
      · rename_i hx
        split at h
        · cases h
        · rename_i hfile
          split at h
          · cases h
          · rename_i hfar
            rw [if_neg hx, if_neg hfile, if_neg hfar]
            rcases List.mem_cons.mp hq with rfl | hq
            · exact folder_stays ((with_folder_iff q q).mpr (.inr rfl)) _ _
            · exact ih h hq

theorem folder_of_made {q : Place} (hq : (t.makeFolders room path).2.isFolder q) :
    t.isFolder q ∨ q ∈ path.visits := by
  unfold makeFolders at hq
  split at hq
  · exact folder_of_chain hq
  · exact folder_of_chain hq
  · exact .inl hq

theorem made_of_visit {q : Place} (h : (t.makeFolders room path).1 = .ok ())
    (hq : q ∈ path.visits) :
    (t.makeFolders room path).2.isFolder q := by
  unfold makeFolders at h ⊢
  split at h
  · exact folder_of_visit h hq
  · exact folder_of_visit h hq
  · cases h

theorem makes_keep (room : Nat) (t : FileTree) (path : Path) (q : Place) (hq : t.isFolder q) :
    (t.makeFolders room path).2.isFolder q := by
  have hkeeps : t.Keeps path (t.makeFolders room path).2 := keeps_make_folders room t path
  exact hkeeps.folders q hq

/-- From one tree to the other folders are made, but only some, and files are written, but only in
some places. -/
structure Grows (folders files : Place → Prop) (t u : FileTree) : Prop where
  kept : ∀ q, t.isFolder q → u.isFolder q
  made : ∀ q, u.isFolder q → t.isFolder q ∨ folders q
  written : ∀ q, u.isFile q → t.isFile q ∨ files q

section Growing
variable {folders files : Place → Prop}

theorem Grows.refl (t : FileTree) : t.Grows folders files t :=
  ⟨fun _ h => h, fun _ h => .inl h, fun _ h => .inl h⟩

theorem Grows.trans (h : t.Grows folders files u) (k : u.Grows folders files v) :
    t.Grows folders files v where
  kept q hq := k.kept q (h.kept q hq)
  made q hq := (k.made q hq).elim (h.made q) .inr
  written q hq := (k.written q hq).elim (h.written q) .inr

theorem grows_make_folders (room : Nat) (t : FileTree) (h : ∀ q ∈ path.visits, folders q) :
    t.Grows folders files (t.makeFolders room path).2 where
  kept := makes_keep room t path
  made q hq := (folder_of_made hq).imp_right (h q)
  written q hq := by
    rw [isFile, make_folders_files] at hq
    exact .inl hq

theorem grows_write {c : Content} (h : t.write path c = .ok u)
    (hplace : ∀ p, path.place = .ok p → files p) : t.Grows folders files u := by
  obtain ⟨p, hp, rfl⟩ := write_ok h
  refine ⟨fun _ hq => hq, fun _ hq => .inl hq, fun q hq => ?_⟩
  by_cases hqp : q = p
  · exact .inr (hqp ▸ hplace p (place_of_locate hp))
  · rw [isFile, Assoc.has, Assoc.get_put, if_neg hqp] at hq
    exact .inl hq

end Growing

theorem writable_iff : t.Writable room path ↔ (t.makeFolders room path.parent).1 = .ok () ∧
    ∃ p, (t.makeFolders room path.parent).2.locate path = .ok p ∧
      (t.makeFolders room path.parent).2.isFolder p = false := by
  refine and_congr_right fun _ => ⟨?_, ?_⟩
  · rintro ⟨c, u, hu⟩
    rw [write] at hu
    cases hp : (t.makeFolders room path.parent).2.locate path with
    | error e => rw [hp] at hu; cases hu
    | ok p =>
      rw [hp] at hu
      simp only [bind, Except.bind] at hu
      split at hu
      · cases hu
      · rename_i hfolder
        exact ⟨p, rfl, Bool.eq_false_iff.mpr hfolder⟩
  · rintro ⟨p, hp, hfolder⟩
    exact ⟨.table [], _, write_at hp hfolder _⟩

/-- Room stays room while the tree grows elsewhere: no file comes in the way of the folders, and no
folder comes where the file is to be. -/
theorem Writable.grown {folders files : Place → Prop} (h : t.Writable room path)
    (hg : t.Grows folders files u) (hfiles : ∀ q ∈ path.parent.visits, ¬ files q)
    (hplace : ∀ p, path.place = .ok p → ¬ folders p ∧ p ∉ path.parent.visits) :
    u.Writable room path := by
  obtain ⟨hmade, p, hp, hfolder⟩ := writable_iff.mp h
  obtain ⟨hcheck, hpass⟩ := make_folders_iff.mp hmade
  have hgrown : (u.makeFolders room path.parent).1 = .ok () :=
    make_folders_iff.mpr ⟨hcheck, hpass.mono hg.kept fun q hq hu =>
      (hg.written q hu).resolve_right (hfiles q hq)⟩
  have hkept (q : Place) (hq : (t.makeFolders room path.parent).2.isFolder q) :
      (u.makeFolders room path.parent).2.isFolder q := by
    rcases folder_of_made hq with hq | hq
    · exact makes_keep room u _ q (hg.kept q hq)
    · exact made_of_visit hgrown hq
  refine writable_iff.mpr ⟨hgrown, p, locate_grows hkept hp, ?_⟩
  obtain ⟨hother, hway⟩ := hplace p (place_of_locate hp)
  cases hu : (u.makeFolders room path.parent).2.isFolder p with
  | false => rfl
  | true =>
    have ht := (hg.made p ((folder_of_made hu).resolve_right hway)).resolve_right hother
    rw [makes_keep room t _ p ht] at hfolder
    cases hfolder

/-- No folder of the path comes where its file is to be. -/
theorem Writable.place_off_way (h : t.Writable room path) {p : Place} (hp : path.place = .ok p) :
    p ∉ path.parent.visits := by
  obtain ⟨hmade, q, hq, hfolder⟩ := writable_iff.mp h
  cases hp.symm.trans (place_of_locate hq)
  intro hway
  rw [made_of_visit hmade hway] at hfolder
  cases hfolder

end FileTree

end QueryTelemetry
