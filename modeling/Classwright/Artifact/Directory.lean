import Classwright.Artifact.Index

/-!
The sink that writes artifacts below a directory.

The artifacts of a unit are first staged in temporary files next to their paths, and moved into
place only when all of them are.
-/

namespace Classwright

/-- A disk and the paths of the artifacts that were written to it, latest first. -/
structure Directory where
  disk : Disk := {}
  written : List String := []

/-- Operations on a disk that write an artifact. -/
abbrev StageM := ExceptT WriteError (StateM Disk)

namespace StageM

/-- An operation on the disk, whose fault is told with what was to be done. -/
def on {α : Type} (wrap : FileFault → WriteError) (m : DiskM α) : StageM α := fun d =>
  match m d with
  | (.ok a, d) => (.ok a, d)
  | (.error e, d) => (.error (wrap e), d)

/-- Writes data to a temporary file next to a path. -/
def stage (path : String) (data : Bytes) : StageM String := do
  let dir := Path.parent path
  on (.createDir dir) (DiskM.mkdirAll dir)
  let tmp ← on (.writeFile path) (DiskM.createTemp dir)
  on (.writeFile path) (tryCatch (DiskM.write tmp data) fun e => do
    DiskM.remove tmp
    throw e)
  return tmp

def discard (tmps : List String) : StageM Unit :=
  modify fun d => tmps.foldl Disk.erase d

def target (root : String) (a : Artifact) : Except WriteError String :=
  if a.path = "" ∨ (a.path.splitOn "..").length > 1 then .error (.invalidPath a.path)
  else .ok (Path.join root a.path)

/-- Stages artifacts one after the other; if one fails, all temporary files go away. -/
def stageAll (root : String) (staged : List (String × String)) :
    List Artifact → StageM (List (String × String))
  | [] => return staged.reverse
  | a :: as => do
    let one : StageM (String × String) := do
      let path ← liftExcept (target root a)
      return (← stage path a.data, path)
    let s ← tryCatch one fun e => do
      discard (staged.map (·.1))
      throw e
    stageAll root (s :: staged) as
where
  liftExcept {α : Type} (r : Except WriteError α) : StageM α := fun d => (r, d)

/-- Moves temporary files into place; if one cannot be moved, it and those after it go away. -/
def moveAll : List (String × String) → StageM Unit
  | [] => return
  | (tmp, path) :: rest => do
    tryCatch (on (.writeFile path) (DiskM.rename tmp path)) fun e => do
      discard (tmp :: rest.map (·.1))
      throw e
    moveAll rest

/-- Writes a file by way of a temporary one. -/
def writeAtomic (path : String) (data : Bytes) : StageM Unit := do
  moveAll [(← stage path data, path)]

end StageM

namespace Directory

/-- Writes the artifacts of a unit below a root. -/
def writeUnit (root : String) (as : List Artifact) (s : Directory) :
    Except WriteError Unit × Directory :=
  let write : StageM Unit := do StageM.moveAll (← StageM.stageAll root [] as)
  match write s.disk with
  | (.ok (), disk) => (.ok (), ⟨disk, (as.map (·.path)).reverse ++ s.written⟩)
  | (.error e, disk) => (.error e, { s with disk })

def sink (root : String) : Sink Directory where
  write a := writeUnit root [a]
  writeUnit := some (writeUnit root)

def sorted (s : Directory) : List String := s.written.mergeSort (· ≤ ·)

end Directory

/-! ### Index files -/

variable [Cbor.Codec]

/-- Reads the index at a path; where there is no file the index is empty. -/
def Index.load (d : Disk) (path : String) : Except IndexError Index :=
  match d.node? path with
  | none => if d.isBelowFile path then .error (.unreadable path (.belowFile path)) else .ok .empty
  | some .dir => .error (.unreadable path (.isDirectory path))
  | some (.file data) => Index.read data

def Index.save (i : Index) (path : String) (d : Disk) : Except WriteError Unit × Disk :=
  StageM.writeAtomic path i.bytes d

/-! ### Stores -/

/-- A memory and a directory, for sinks that use one or the other. The memory that is looked at can
be another than the one in use, and is empty then. -/
structure Store where
  memory : Memory := {}
  inView : Bool := true
  directory : Directory := {}

namespace Store

/-- A sink for a part of a state. -/
def lift {σ τ : Type} (get : τ → σ) (set : σ → τ → τ) (s : Sink σ) : Sink τ where
  write a t :=
    let (r, x) := s.write a (get t)
    (r, set x t)
  writeUnit := s.writeUnit.map fun f as t =>
    let (r, x) := f as (get t)
    (r, set x t)

def inMemory (s : Sink Memory) : Sink Store := lift memory (fun memory t => { t with memory }) s

def below (root : String) : Sink Store :=
  lift directory (fun directory t => { t with directory }) (Directory.sink root)

/-- A sink over an index that takes no notice of it. -/
def unindexed (s : Sink Store) : Sink (Indexed Store) :=
  lift Indexed.next (fun next t => { t with next }) s

def view (s : Store) : Memory := if s.inView then s.memory else {}

def changeDisk (s : Store) (f : Disk → Disk) : Store :=
  { s with directory := { s.directory with disk := f s.directory.disk } }

end Store

namespace Indexed

def save (path : String) (s : Indexed Store) : Except WriteError Unit × Indexed Store :=
  let (r, disk) := s.index.save path s.next.directory.disk
  (r, { s with next := s.next.changeDisk fun _ => disk })

/-- Gives a file of the disk other data. -/
def replaceFile (path : String) (data : Bytes) (s : Indexed Store) : Indexed Store :=
  { s with next := s.next.changeDisk (·.place path (.file data)) }

/-- Starts again from the index on the disk, with an empty memory and the same directory. If the
index cannot be read all stays in use, but the empty memory is looked at. -/
def reopen (path : String) (s : Indexed Store) : Except IndexError Unit × Indexed Store :=
  match Index.load s.next.directory.disk path with
  | .ok index => (.ok (), { next := { directory := s.next.directory }, index })
  | .error e => (.error e, { s with next := { s.next with inView := false } })

end Indexed

end Classwright
