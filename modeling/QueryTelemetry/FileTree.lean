import QueryTelemetry.Assoc
import QueryTelemetry.Json.Basic
import QueryTelemetry.Text.Characters

/-!
# Paths and files

A path is normalised by its text alone: repeated slashes and `.` parts vanish, `..` parts stay.
Exactly two slashes in front are kept apart from one. A literal path keeps its `.` parts too.

Files and folders below a working directory, as far as a run can see them. A place is the list
of names that leads to it; `..` in front climbs above the working directory, and a slash in front
starts at the top of the system. A path is followed name by name, so every name before the last
has to lead to a folder, even where only a `.` comes after it. Names and paths are limited by the
bytes of their text.
-/

set_option autoImplicit false

namespace QueryTelemetry

structure Path where
  root : String
  parts : List String
  deriving DecidableEq

namespace Path

def rootOf (cs : List Char) : String :=
  match (cs.takeWhile (· = '/')).length with
  | 0 => ""
  | 2 => "//"
  | _ => "/"

def partsOf (cs : List Char) : List String :=
  ((Text.split '/' cs).map String.ofList).filter (· ≠ "")

/-- A `.` part stays where it is, but has to stand behind a folder. -/
def literal (s : String) : Path := ⟨rootOf s.toList, partsOf s.toList⟩

def ofText (s : String) : Path := ⟨rootOf s.toList, (partsOf s.toList).filter (· ≠ ".")⟩

def text (p : Path) : String :=
  if p.root = "" ∧ p.parts = [] then "." else p.root ++ String.intercalate "/" p.parts

def child (p : Path) (name : String) : Path := { p with parts := p.parts ++ [name] }

/-- A path without parts is its own parent. -/
def parent (p : Path) : Path := { p with parts := p.parts.dropLast }

theorem parent_child (p : Path) (name : String) : (p.child name).parent = p := by
  simp [parent, child]

end Path

abbrev Place := List String

abbrev Row := List (String × Json)

inductive Content where
  | bytes (b : ByteArray)
  | table (rows : List Row)

inductive FileError where
  | missing | notFolder | isFolder | exists
  /-- A name, or the text of the whole path, has too many bytes. -/
  | longName
  /-- The text of the path holds a null character. -/
  | nullByte
  /-- Too many folders on the way are missing. -/
  | tooDeep
  deriving DecidableEq

/-- Folders are kept with their depth, which alone tells most of them apart. -/
structure FileTree where
  files : Assoc Place Content
  folders : List (Nat × Place)

namespace Path

def nameLimit : Nat := 255

/-- The text and the zero byte behind it. -/
def byteLimit : Nat := 4096

def checkText (path : Path) : Except FileError Unit :=
  if '\x00' ∈ path.text.toList then .error .nullByte
  else if byteLimit ≤ path.text.utf8ByteSize then .error .longName
  else .ok ()

end Path

namespace Place

def isBelow (p : Place) : Bool :=
  match p with
  | [] => true
  | n :: _ => n ≠ ".." && n ≠ "/"

def isGiven (p : Place) : Bool := p = ["/"] || p.all (· = "..")

def up (p : Place) : Place :=
  if p = ["/"] then p
  else if p.all (· = "..") then p ++ [".."]
  else p.dropLast

def step (p : Place) (name : String) : Except FileError Place :=
  if Path.nameLimit < name.utf8ByteSize then .error .longName
  else if name = ".." then .ok p.up
  else if name = "." then .ok p
  else .ok (p ++ [name])

def start (path : Path) : Place := if path.root = "" then [] else ["/"]

def text (p : Place) : String := String.intercalate "/" p

end Place

namespace FileTree

def empty : FileTree := ⟨[], []⟩

def isFolder (t : FileTree) (p : Place) : Bool :=
  p.isGiven || t.folders.contains (p.length, p)

def isFile (t : FileTree) (p : Place) : Bool := t.files.has p

def follow (t : FileTree) (p : Place) : List String → Except FileError Place
  | [] => .ok p
  | n :: r =>
    if t.isFolder p then
      match p.step n with
      | .ok q => t.follow q r
      | .error e => .error e
    else if t.isFile p then .error .notFolder
    else .error .missing

def locate (t : FileTree) (path : Path) : Except FileError Place := do
  path.checkText
  t.follow (Place.start path) path.parts

def present (t : FileTree) (path : Path) : Except FileError Bool :=
  match t.locate path with
  | .ok p => .ok (t.isFolder p || t.isFile p)
  | .error .longName => .error .longName
  | .error _ => .ok false

/-- Makes the folders that the names lead through, one in the other, but not more than there is
room for below the first missing one. Those made before an error stay. -/
def makeChain (room : Nat) (t : FileTree) (p : Place) :
    List String → Except FileError Unit × FileTree
  | [] => (.ok (), t)
  | n :: r =>
    match p.step n with
    | .error e => (.error e, t)
    | .ok q =>
      if t.isFolder q then t.makeChain room q r
      else if t.isFile q then (.error .exists, t)
      else if room < r.length then (.error .tooDeep, t)
      else makeChain room { t with folders := (q.length, q) :: t.folders } q r

def makeFolders (room : Nat) (t : FileTree) (path : Path) : Except FileError Unit × FileTree :=
  match t.locate path with
  | .ok _ | .error .missing => t.makeChain room (Place.start path) path.parts
  | .error e => (.error e, t)

def write (t : FileTree) (path : Path) (c : Content) : Except FileError FileTree := do
  let p ← t.locate path
  if t.isFolder p then .error .isFolder
  else return { t with files := t.files.put p c }

def read (t : FileTree) (path : Path) : Except FileError Content := do
  let p ← t.locate path
  if t.isFolder p then .error .isFolder
  else
    match t.files.get? p with
    | some c => return c
    | none => .error .missing

def remove (t : FileTree) (path : Path) : FileTree :=
  match t.locate path with
  | .ok p => { t with files := t.files.filter fun f => f.1 ≠ p }
  | .error _ => t

def listing (t : FileTree) : List (String × Content) :=
  ((t.files.filter fun f => f.1.isBelow).map fun f => (f.1.text, f.2)).mergeSort
    fun a b => a.1 ≤ b.1

theorem make_chain_files (room : Nat) (t : FileTree) (p : Place) (names : List String) :
    (t.makeChain room p names).2.files = t.files := by
  induction names generalizing t p with
  | nil => rfl
  | cons n r ih =>
    unfold makeChain
    split
    · rfl
    · split
      · exact ih _ _
      · split
        · rfl
        · split
          · rfl
          · exact ih _ _

theorem make_folders_files (room : Nat) (t : FileTree) (path : Path) :
    (t.makeFolders room path).2.files = t.files := by
  unfold makeFolders
  split
  · exact make_chain_files room _ _ _
  · exact make_chain_files room _ _ _
  · rfl

theorem follow_folders {t u : FileTree} (h : u.folders = t.folders) {p q : Place}
    {names : List String} (hq : t.follow p names = .ok q) : u.follow p names = .ok q := by
  induction names generalizing p with
  | nil => exact hq
  | cons n r ih =>
    unfold follow at hq ⊢
    have hf : u.isFolder p = t.isFolder p := by simp [isFolder, h]
    rw [hf]
    split at hq
    · rename_i hp
      rw [if_pos hp]
      cases hs : p.step n with
      | error e => rw [hs] at hq; cases hq
      | ok q => rw [hs] at hq; exact ih hq
    · split at hq <;> cases hq

theorem locate_folders {t u : FileTree} (h : u.folders = t.folders) {path : Path} {p : Place}
    (hp : t.locate path = .ok p) : u.locate path = .ok p := by
  unfold locate at hp ⊢
  cases hc : path.checkText with
  | error e => rw [hc] at hp; cases hp
  | ok _ => rw [hc] at hp; exact follow_folders h hp

theorem read_write {t u : FileTree} {path : Path} {c : Content}
    (h : t.write path c = .ok u) : u.read path = .ok c := by
  unfold write at h
  cases hp : t.locate path with
  | error e => rw [hp] at h; cases h
  | ok p =>
    rw [hp] at h
    simp only [bind, Except.bind] at h
    split at h
    · cases h
    · rename_i hf
      cases h
      have hl : FileTree.locate { t with files := t.files.put p c } path = .ok p :=
        locate_folders (t := t) (u := { t with files := t.files.put p c }) rfl hp
      have hf : FileTree.isFolder { t with files := t.files.put p c } p = false := by
        simpa [isFolder] using hf
      simp [read, hl, hf, bind, Except.bind, Assoc.get_put, pure, Except.pure]

end FileTree

end QueryTelemetry
