import QueryTelemetry.FileTree
import QueryTelemetry.Log
import QueryTelemetry.Number.Integer
import QueryTelemetry.Text.Printable

/-!
# Work on a workspace

What a run reads and changes: the files, the limits of the machine, the clock, the stamps handed out
for points in time, the timings and the log. Work that fails leaves the workspace as it was at the
point of the failure.
-/

set_option autoImplicit false

namespace QueryTelemetry

inductive Failure where
  /-- An integer past the digit limit was to be written. -/
  | unwritable
  /-- An integer past the digit limit was to be read. -/
  | longInteger (digits : Nat)
  | missingKey (key : String)
  /-- A value has another type than the one it is used at. -/
  | wrongType
  /-- A value lacks an operation that it is asked for. -/
  | unsupported
  | outOfRange
  /-- A text column holds another value, or an integer column a truth value. -/
  | mistypedCell
  /-- A value cannot become one of its column. -/
  | unfitCell
  /-- A path that reads as an address leads nowhere. -/
  | refusedAddress
  /-- A path that is to be one of a file ends with a slash. -/
  | namelessFile
  | unknownCompression
  /-- A compression or a service has a name here, but is not there. -/
  | unavailable
  | invalidUtf8
  /-- A document is nested too deeply to be read. -/
  | tooDeep
  | noWorkers
  /-- A text has no bytes, since it holds half of a surrogate pair. -/
  | unencodable
  /-- A handler of a caller's own failed in a way of its own. -/
  | raised (name : String)
  | file (e : FileError)
  deriving DecidableEq

namespace Failure

def message? : Failure → Option String
  | .unwritable => some Integer.unwritableText
  | .longInteger n => some (Integer.unreadableText n)
  | .missingKey k => some (String.ofList (Text.quoted k.toList))
  | .noWorkers => some "max_workers must be greater than 0"
  | .file .nullByte => some "embedded null byte"
  | _ => none

end Failure

/-- What the machine can take. Documents of this library are never nested too deeply for it. -/
structure Limits where
  /-- Arrays and objects that may be open at one place of a document. -/
  nesting : Nat
  /-- Folders that are made with the first missing one above them. -/
  folders : Nat
  enough : 8 ≤ nesting

/-- Those of an interpreter with a thousand frames. -/
def Limits.usual : Limits := ⟨988, 985, by decide⟩

structure Workspace where
  files : FileTree
  limits : Limits
  clock : Clock
  stamps : Nat
  timings : Timings
  log : List LogLine

def Workspace.start (limits : Limits) (clock : Clock) : Workspace :=
  ⟨.empty, limits, clock, 0, [], []⟩

abbrev Work := ExceptT Failure (StateM Workspace)

namespace Work
variable {α : Type}

def ofExcept (r : Except Failure α) : Work α := ExceptT.mk (pure r)

def ofOption (failure : Failure) (r : Option α) : Work α :=
  match r with
  | some a => pure a
  | none => throw failure

def outcome (body : Work α) : Work (Except Failure α) := ExceptT.mk (body.run.map .ok)

def logLine (level : Level) (part message : String) : Work Unit :=
  modify fun w => { w with log := w.log ++ [⟨level, part, message⟩] }

def tick : Work Binary64 := modifyGet fun w =>
  let (t, clock) := w.clock.tick
  (t, { w with clock })

def stamp : Work String := modifyGet fun w =>
  ("T" ++ toString (w.stamps + 1), { w with stamps := w.stamps + 1 })

/-- Tells the sink how long the body took, also when it fails. -/
def timed (sink : Binary64 → Work Unit) (body : Work α) : Work α := do
  let start ← tick
  let result ← outcome body
  let stop ← tick
  sink (stop.sub start)
  ofExcept result

def recordTiming (name : String) (duration : Binary64) : Work Unit :=
  modify fun w => { w with timings := w.timings.record name duration }

def askFiles (f : FileTree → Except FileError α) : Work α := do
  match f (← get).files with
  | .ok a => return a
  | .error e => throw (.file e)

def changeFiles (f : FileTree → Except FileError FileTree) : Work Unit := do
  match f (← get).files with
  | .ok files => modify fun w => { w with files }
  | .error e => throw (.file e)

def makeFolders (path : Path) : Work Unit := ExceptT.mk (modifyGet fun w =>
  let (r, files) := w.files.makeFolders w.limits.folders path
  (r.mapError .file, { w with files }))

theorem run_bind {β : Type} (x : Work α) (f : α → Work β) (w : Workspace) :
    (x >>= f).run.run w = match x.run.run w with
      | (.ok a, w) => (f a).run.run w
      | (.error e, w) => (.error e, w) := by
  simp only [ExceptT.run_bind, StateT.run_bind]
  rcases x.run.run w with ⟨_ | _, _⟩ <;> rfl

theorem run_of_except (r : Except Failure α) (w : Workspace) :
    (ofExcept r).run.run w = (r, w) := rfl

theorem run_outcome (body : Work α) (w : Workspace) :
    (outcome body).run.run w = (.ok (body.run.run w).1, (body.run.run w).2) := rfl

theorem run_get (w : Workspace) : (get : Work Workspace).run.run w = (.ok w, w) := rfl

theorem run_log_line (level : Level) (part message : String) (w : Workspace) :
    (logLine level part message).run.run w =
      (.ok (), { w with log := w.log ++ [⟨level, part, message⟩] }) := rfl

theorem run_stamp (w : Workspace) :
    stamp.run.run w = (.ok ("T" ++ toString (w.stamps + 1)), { w with stamps := w.stamps + 1 }) :=
  rfl

theorem run_ask_files (f : FileTree → Except FileError α) (w : Workspace) :
    (askFiles f).run.run w = match f w.files with
      | .ok a => (.ok a, w)
      | .error e => (.error (.file e), w) := by
  unfold askFiles
  rw [run_bind]
  change (match f w.files with
    | .ok a => pure a
    | .error e => throw (.file e) : Work α).run.run w = _
  cases f w.files <;> rfl

theorem run_change_files (f : FileTree → Except FileError FileTree) (w : Workspace) :
    (changeFiles f).run.run w = match f w.files with
      | .ok files => (.ok (), { w with files })
      | .error e => (.error (.file e), w) := by
  unfold changeFiles
  rw [run_bind]
  change (match f w.files with
    | .ok files => modify fun w => { w with files }
    | .error e => throw (.file e) : Work Unit).run.run w = _
  cases f w.files <;> rfl

theorem run_make_folders (path : Path) (w : Workspace) :
    (makeFolders path).run.run w = ((w.files.makeFolders w.limits.folders path).1.mapError .file,
      { w with files := (w.files.makeFolders w.limits.folders path).2 }) :=
  rfl

end Work

end QueryTelemetry
