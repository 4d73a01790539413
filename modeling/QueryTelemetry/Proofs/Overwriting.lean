import QueryTelemetry.Proofs.Places

/-!
# Writing where something could be read

Whoever can read a file finds all folders on its way, so none of them has to be made, and the file
can be written again.
-/

set_option autoImplicit false

namespace QueryTelemetry

namespace Path

theorem text_child (folder : Path) (name : String) :
    folder.text = "." ∨ ∃ rest, (folder.child name).text = folder.text ++ rest := by
  by_cases hnone : folder.parts = []
  · by_cases hroot : folder.root = ""
    · exact Or.inl (if_pos ⟨hroot, hnone⟩)
    · refine Or.inr ⟨name, ?_⟩
      simp [text, child, hnone, hroot]
  · refine Or.inr ⟨"/" ++ name, ?_⟩
    have hlast := String.intercalate_append_of_ne_nil (s := "/") hnone (List.cons_ne_nil name [])
    rw [String.intercalate_singleton] at hlast
    simp [text, child, hnone, hlast, String.append_assoc]

theorem check_folder {folder : Path} {name : String} (h : (folder.child name).checkText = .ok ()) :
    folder.checkText = .ok () := by
  unfold checkText at h ⊢
  split at h
  · cases h
  · rename_i hnull
    split at h
    · cases h
    · rename_i hshort
      rcases text_child folder name with hdot | ⟨rest, htext⟩
      · rw [hdot]
        rfl
      · rw [htext, String.toList_append, List.mem_append, not_or] at hnull
        rw [htext, String.utf8ByteSize_append] at hshort
        rw [if_neg hnull.1, if_neg (by omega)]

end Path

namespace FileTree
variable {t : FileTree} {path : Path}

theorem start_folder (t : FileTree) (path : Path) : t.isFolder (Place.start path) = true := by
  unfold Place.start
  split <;> simp [isFolder, Place.isGiven]

theorem follow_concat {p q : Place} {names : List String} {name : String}
    (h : t.follow p (names ++ [name]) = .ok q) :
    ∃ f, t.follow p names = .ok f ∧ t.isFolder f = true ∧ f.step name = .ok q := by
  induction names generalizing p with
  | nil =>
    rw [List.nil_append, follow] at h
    split at h
    · rename_i hf
      cases hs : p.step name with
      | error e => rw [hs] at h; cases h
      | ok f => rw [hs] at h; exact ⟨p, rfl, hf, hs.trans h⟩
    · split at h <;> cases h
  | cons n r ih =>
    rw [List.cons_append, follow] at h
    split at h
    · rename_i hf
      cases hs : p.step n with
      | error e => rw [hs] at h; cases h
      | ok f =>
        rw [hs] at h
        obtain ⟨g, hg, hfolder, hlast⟩ := ih h
        refine ⟨g, ?_, hfolder, hlast⟩
        rw [follow, if_pos hf, hs]
        exact hg
    · split at h <;> cases h

/-- Folders that are there are not made. -/
theorem make_chain_followed {room : Nat} {p q : Place} {names : List String}
    (h : t.follow p names = .ok q)
    (hq : t.isFolder q = true) : t.makeChain room p names = (.ok (), t) := by
  induction names generalizing p with
  | nil => rfl
  | cons n r ih =>
    rw [follow] at h
    split at h
    · cases hs : p.step n with
      | error e => rw [hs] at h; cases h
      | ok f =>
        rw [hs] at h
        have hfolder : t.isFolder f = true := by
          cases r with
          | nil => exact Except.ok.inj h ▸ hq
          | cons m r =>
            change t.follow f (m :: r) = .ok q at h
            rw [follow] at h
            split at h
            · assumption
            · split at h <;> cases h
        rw [makeChain, hs]
        exact (if_pos hfolder).trans (ih h)
    · split at h <;> cases h

/-- There are folders all the way, or they can be made, and no folder is at the end. -/
def Writable (room : Nat) (t : FileTree) (path : Path) : Prop :=
  (t.makeFolders room path.parent).1 = .ok () ∧
    ∃ c u, (t.makeFolders room path.parent).2.write path c = .ok u

theorem write_at {p : Place} (hp : t.locate path = .ok p) (hf : t.isFolder p = false)
    (c : Content) : t.write path c = .ok { t with files := t.files.put p c } := by
  simp only [write, hp, bind, Except.bind, hf]
  rfl

theorem write_content {c d : Content} {u : FileTree} (h : t.write path c = .ok u) :
    ∃ v, t.write path d = .ok v := by
  rw [write] at h ⊢
  cases hp : t.locate path with
  | error e => rw [hp] at h; cases h
  | ok p =>
    rw [hp] at h
    simp only [bind, Except.bind] at h ⊢
    split at h
    · cases h
    · rename_i hf
      exact ⟨_, if_neg hf⟩

theorem make_folders_of_read {room : Nat} {c : Content} (h : t.read path = .ok c) :
    t.makeFolders room path.parent = (.ok (), t) := by
  obtain ⟨p, hp, hf, -⟩ := read_ok h
  obtain ⟨hcheck, hfollow⟩ := locate_ok hp
  rcases List.eq_nil_or_concat path.parts with hnil | ⟨names, name, hparts⟩
  · rw [hnil] at hfollow
    rw [← Except.ok.inj hfollow, start_folder] at hf
    cases hf
  · rw [List.concat_eq_append] at hparts
    have hpath : path = Path.child ⟨path.root, names⟩ name := by rw [Path.child, ← hparts]
    rw [hparts] at hfollow
    obtain ⟨f, hparent, hfolder, -⟩ := follow_concat hfollow
    have hlocate : t.locate path.parent = .ok f := by
      rw [hpath] at hcheck
      rw [hpath, Path.parent_child, locate, Path.check_folder hcheck]
      exact hparent
    rw [makeFolders, hlocate]
    have hnames : path.parent.parts = names := by rw [Path.parent, hparts, List.dropLast_concat]
    dsimp only
    rw [hnames]
    exact make_chain_followed hparent hfolder

theorem writable_of_read {room : Nat} {c : Content} (h : t.read path = .ok c) :
    t.Writable room path := by
  obtain ⟨p, hp, hf, -⟩ := read_ok h
  rw [Writable, make_folders_of_read h]
  exact ⟨rfl, c, _, write_at hp hf c⟩

end FileTree

end QueryTelemetry
