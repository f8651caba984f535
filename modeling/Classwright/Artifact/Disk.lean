import Classwright.Bytes
import Classwright.Path

/-!
A disk: directories and files under a root, with a working directory.

Every operation that changes the disk may be refused by the device, as `refuses` says of the number
of operations before it. What is refused changes nothing.
-/

namespace Classwright

inductive FileFault where
  | notDirectory (path : String)
  | taken (path : String)
  | missing (path : String)
  | belowFile (path : String)
  | isDirectory (path : String)
  | occupied (path : String)
  | badName (path : String)
  | device
  deriving DecidableEq, Repr

def FileFault.message : FileFault → String
  | notDirectory path => s!"mkdir {path}: not a directory"
  | taken path => s!"mkdir {path}: file exists"
  | missing path => s!"open {path}: no such file or directory"
  | belowFile path => s!"open {path}: not a directory"
  | isDirectory path => s!"read {path}: is a directory"
  | occupied path => s!"rename {path}: file exists"
  | badName path => s!"open {path}: invalid argument"
  | device => "input/output error"

inductive FileNode where
  | dir
  | file (data : Bytes)
  deriving DecidableEq, Repr

structure Disk where
  /-- The nodes below the root, by the components of their paths. -/
  nodes : List (List String × FileNode) := []
  workingDir : String := "/"
  refuses : Nat → Bool := fun _ => false
  operations : Nat := 0

namespace Disk

/-- The components of a path from the root. -/
def locate (d : Disk) (path : String) : List String :=
  Path.cleanComponents (Path.resolve d.workingDir path)

/-- What is at a path, by components. -/
def nodeAt? (d : Disk) (key : List String) : Option FileNode :=
  if key.isEmpty then some .dir else d.nodes.lookup key

def node? (d : Disk) (path : String) : Option FileNode := d.nodeAt? (d.locate path)

/-- Whether a path goes through a file as if it were a directory. -/
def isBelowFile (d : Disk) (path : String) : Bool :=
  let key := d.locate path
  (List.range key.length).any fun i =>
    match d.nodeAt? (key.take i) with
    | some (.file _) => true
    | _ => false

def read? (d : Disk) (path : String) : Option Bytes :=
  match d.node? path with
  | some (.file data) => some data
  | _ => none

def readText? (d : Disk) (path : String) : Option String :=
  (d.read? path).bind fun data => String.fromUTF8? ⟨data.toArray⟩

def isDir (d : Disk) (path : String) : Bool := d.node? path == some .dir

def erase (d : Disk) (path : String) : Disk :=
  let key := d.locate path
  { d with nodes := d.nodes.filter (·.1 != key) }

/-- Puts a node in the place of what was at its path. -/
def place (d : Disk) (path : String) (n : FileNode) : Disk :=
  let d' := d.erase path
  { d' with nodes := (d.locate path, n) :: d'.nodes }

/-- Puts directories where a path and those above it have none. -/
def addDirs (d : Disk) (dir : String) : Disk :=
  (Path.ancestors dir).foldl (fun d p => if (d.node? p).isSome then d else d.place p .dir) d

def ofFiles (dir : String) (files : List (String × Bytes)) : Disk :=
  let start : Disk := { nodes := [], workingDir := dir }
  files.foldl (fun d (p, data) =>
    (d.addDirs (Path.parent (Path.resolve dir p))).place p (.file data))
    (start.addDirs dir)

/-- The files below a directory, by their paths from it, in order. -/
def filesBelow (d : Disk) (dir : String) : List (String × Bytes) :=
  let top := d.locate dir
  let found := d.nodes.filterMap fun (key, n) =>
    match n with
    | .file data =>
      if top.isPrefixOf key then some (Path.clean ("/".intercalate (key.drop top.length)), data)
        else none
    | .dir => none
  found.mergeSort fun a b => a.1 ≤ b.1

end Disk

/-! ### Operations -/

abbrev DiskM := ExceptT FileFault (StateM Disk)

namespace DiskM

/-- Counts an operation, which the device may refuse. -/
def begin : DiskM Unit := do
  let d ← get
  set { d with operations := d.operations + 1 }
  if d.refuses d.operations then throw .device

/-- Whether the last component of a path can name a file. -/
def isName (path : String) : Bool :=
  match (Path.cleanComponents path).getLast? with
  | some c => c.utf8ByteSize ≤ 255 && !c.contains '\x00'
  | none => true

/-- Makes the directories on the way to a path, of which `shown` is there. -/
def mkdirFrom (path shown : String) : List String → DiskM Unit
  | [] => return
  | c :: cs => do
    let here := shown ++ c
    match (← get).node? here with
    | some .dir => pure ()
    | some (.file _) => throw (if cs.isEmpty then .notDirectory path else .taken (here ++ "/"))
    | none =>
      begin
      if !isName here then throw (.badName here)
      modify fun d => d.place here .dir
    mkdirFrom path (here ++ "/") cs

/-- Makes a directory and those above it, if they are not there. -/
def mkdirAll (path : String) : DiskM Unit :=
  mkdirFrom path (if Path.isAbsolute path then "/" else "") (Path.cleanComponents path)

/-- The first name of a temporary file that is free, among `n` from the `i`-th on. -/
def freeName (d : Disk) (dir : String) : Nat → Nat → String
  | 0, i => Path.join dir s!".tmp-{i}"
  | n + 1, i =>
    let path := Path.join dir s!".tmp-{i}"
    if (d.node? path).isNone then path else freeName d dir n (i + 1)

/-- Makes an empty file with a free name in a directory. -/
def createTemp (dir : String) : DiskM String := do
  begin
  let d ← get
  if !d.isDir dir then throw (.missing dir)
  let path := freeName d dir d.nodes.length 0
  set (d.place path (.file []))
  return path

def write (path : String) (data : Bytes) : DiskM Unit := do
  begin
  modify fun d => d.place path (.file data)

/-- Moves a file to a path that is no directory. -/
def rename (source target : String) : DiskM Unit := do
  begin
  let d ← get
  match d.read? source with
  | none => throw (.missing source)
  | some data =>
    if !isName target then throw (.badName target)
    if d.isDir target then throw (.occupied target)
    set ((d.erase source).place target (.file data))

/-- Opens a file to add to it, and makes it if it is not there. -/
def touch (path : String) : DiskM Unit := do
  begin
  let d ← get
  if d.isDir path then throw (.isDirectory path)
  if !d.isDir (Path.parent path) then throw (.missing path)
  if !isName path then throw (.badName path)
  set (d.place path (.file ((d.read? path).getD [])))

def remove (path : String) : DiskM Unit := modify fun d => d.erase path

end DiskM

end Classwright
