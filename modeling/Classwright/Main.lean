import Classwright.Command.Run

/-!
The program: runs the command line on the files of the system.

The files that a run reads are gathered first, the run itself is `Command.run`, and then the files
that it made or changed are written.
-/

namespace Classwright.Command

/-- The file at a path, if there is one that can be read. -/
def readFile? (path : String) : IO (List (String × Bytes)) := do
  try
    return [(path, (← IO.FS.readBinFile path).toList)]
  catch _ => return []

/-- Opens a log to add to it, and gives what it has so far. -/
def openFile? (path : String) : IO (List (String × Bytes)) := do
  try
    discard (IO.FS.Handle.mk path .append)
    readFile? path
  catch _ => return []

/-- The files that a run may read: the settings on the way up, then the index and the log. -/
def gather (dir : String) (a : Arguments) : IO Disk := do
  let start := Path.resolve dir a.searchDir
  let found ← (Path.ancestors start).mapM fun d => readFile? (Path.join d Settings.fileName)
  let disk := Disk.ofFiles dir found.flatten
  match Settings.find disk.readText? start with
  | .error _ => return disk
  | .ok s =>
    let index ← s.indexPath?.toList.mapM readFile?
    let log ← s.logPath?.toList.mapM openFile?
    return Disk.ofFiles dir (found ++ index ++ log).flatten

/-- Writes the files of one disk that another does not have. -/
def commit (before after : Disk) : IO Unit :=
  (after.filesBelow "/").forM fun (path, data) => do
    let full := "/" ++ path
    if before.read? full != some data then
      IO.FS.createDirAll (Path.parent full)
      IO.FS.writeBinFile full ⟨data.toArray⟩

/-- A name for a run that no other has. -/
def newRunId : IO String := do
  let parts ← (List.range 4).mapM fun _ => IO.rand 0 0xFFFFFFFF
  return "-".intercalate (parts.map (Text.hex 8))

end Classwright.Command

open Classwright in
def main (args : List String) : IO UInt32 := do
  let dir := toString (← IO.currentDir)
  let before ← match Command.Arguments.read {} args with
    | .ok a => if a.list then pure (Disk.ofFiles dir []) else Command.gather dir a
    | .error _ => pure (Disk.ofFiles dir [])
  let ending := Command.run (← Command.newRunId) args before
  IO.print ending.out
  IO.eprint ending.err
  Command.commit before ending.disk
  return .ofNat ending.code
