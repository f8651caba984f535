import Classwright.Artifact.Directory
import Classwright.Bytecode.Listing
import Classwright.ClassFile.Reader
import Classwright.Command.Arguments
import Classwright.Format.Cbor
import Classwright.Format.Toml.Document
import Classwright.Sample
import Classwright.Settings

/-!
The command line: writes samples below a directory, or lists their names or their code.

A run is a function of the arguments and the disk. It ends with a code: 0 if all went well, 1 if
something failed, 2 if the arguments make no sense.
-/

namespace Classwright.Command

/-- What a run has done so far: the disk and the two streams. -/
structure World where
  disk : Disk
  out : String := ""
  err : String := ""

/-- Runs, which may end early with a code. -/
abbrev RunM := ExceptT Nat (StateM World)

def say (text : String) : RunM Unit := modify fun w => { w with out := w.out ++ text }

def complain (text : String) : RunM Unit := modify fun w => { w with err := w.err ++ text }

def fail {α : Type} (message : String) : RunM α := do
  complain s!"Error: {message}\n"
  throw 1

/-- A result whose error ends the run. -/
def orFail {ε α : Type} (message : ε → String) : Except ε α → RunM α
  | .ok a => return a
  | .error e => fail (message e)

def usage : String := String.join (List.map (· ++ "\n") [
  "Usage: sourcegen [options] [samples...]",
  "",
  "Generates class files for the built-in sample declarations.",
  "",
  "Options:",
  "  -C string",
  "    \tDirectory to search upward for sourcegen.toml (default \".\")",
  "  -disasm",
  "    \tPrint the bytecode of every generated method instead of writing files",
  "  -list",
  "    \tList the sample declarations and exit",
  "  -no-index",
  "    \tRewrite every artifact, ignoring the index",
  "  -o string",
  "    \tOutput directory (overrides output.dir)",
  "  -v\tVerbose output",
  "  -workers int",
  "    \tConcurrent types (overrides output.workers)",
  "",
  "Examples:",
  "  sourcegen                  # Write every sample to output.dir",
  "  sourcegen -o out Calc      # Write demo.Calc to out/",
  "  sourcegen -disasm Numbers  # Show the switch lowering"])

/-! ### Settings -/

/-- The settings of a run: those found on the disk, changed as the arguments say. -/
def settings (a : Arguments) : RunM Settings := do
  let d := (← get).disk
  let mut s ← orFail SettingsError.message
    (Settings.find d.readText? (Path.resolve d.workingDir a.searchDir))
  if a.output != "" then s := { s with output := a.output, index := "" }
  if 0 < a.workers then s := { s with workers := a.workers }
  if a.verbose then s := { s with verbosity := 2 }
  match s.complaints with
  | [] => return s
  | cs => fail (complaintsText cs)

/-- Opens the log, if it goes to a file. -/
def openLog (s : Settings) : RunM Unit := do
  match s.logPath? with
  | none => return
  | some path =>
    let w ← get
    let (r, disk) := (DiskM.touch path).run.run w.disk
    set { w with disk }
    match r with
    | .ok () => return
    | .error e =>
      complain s!"log file error: {e.message}\n"
      throw 1

/-! ### Samples -/

inductive SampleError where
  | unknown (name : String)
  | build (name : String) (cause : BuildError)

def SampleError.message : SampleError → String
  | unknown name => "unknown sample " ++ Text.quoted name ++ " (see -list)"
  | build name cause => s!"sample {name}: {cause.message}"

/-- The sample of a name, which may have the package before it. -/
def sample (name : String) : Except SampleError Decl :=
  let pkg := Sample.qualified ""
  let simple := if name.startsWith pkg then (name.drop pkg.length).toString else name
  match Sample.find? simple with
  | none => .error (.unknown name)
  | some r => r.mapError (.build name)

/-- The named samples, or all. -/
def samples : List String → Except SampleError (List Decl)
  | [] => Sample.all.mapM fun (name, r) => r.mapError (.build name)
  | names => names.mapM sample

/-! ### Listings -/

inductive ListingError where
  | generate (e : UnitError)
  | read (e : ReadError)
  | pool (e : PoolError)
  | decode (e : DecodeError)

def ListingError.message : ListingError → String
  | generate e => e.message
  | read e => e.message
  | pool e => e.message
  | decode e => e.message?.getD "malformed code"

def methodListing (cf : ClassFile) (m : Member) : Except ListingError String := do
  let (name, desc) ← (cf.memberName m).mapError .pool
  match ← (cf.code? m).mapError .read with
  | none => return s!"  {name}{desc} (abstract)\n\n"
  | some c =>
    let text ← (listing c.code (some cf.pool)).mapError .decode
    let lines := (text.dropEndWhile (· == '\n')).toString.splitOn "\n"
    return s!"  {name}{desc} stack={c.maxStack.toNat} locals={c.maxLocals.toNat}\n"
      ++ String.join (lines.map fun l => "    " ++ l ++ "\n") ++ "\n"

def printClass (a : Artifact) : RunM Unit := do
  let cf ← orFail ListingError.message ((ClassFile.parse a.data).mapError .read)
  say s!"class {a.name} ({a.data.length} bytes)\n"
  cf.methods.forM fun m => do say (← orFail ListingError.message (methodListing cf m))

/-- Prints the listings of declarations. -/
def printListings (o : Options) (ds : List Decl) : RunM Unit :=
  ds.forM fun d => do
    let as ← orFail UnitError.message (Generation.generate o d)
    as.forM printClass

/-! ### Writing -/

/-- Writes declarations with a sink over a disk. -/
def writeWith {σ : Type} (s : Settings) (sink : Sink σ) (ds : List Decl) (st : σ) :
    RunM (Report × σ) :=
  orFail (fun _ => "generation failed") (Batch.writeAll s.workers.toNat s.options sink ds st)

def setDisk (disk : Disk) : RunM Unit := modify fun w => { w with disk }

/-- Writes declarations below the output directory, past the index if there is one. Gives the
report, the paths that were written and the number of artifacts that had not changed. -/
def writeDecls (runId : String) (s : Settings) (useIndex : Bool) (ds : List Decl) :
    RunM (Report × List String × Nat) := do
  let sink := Directory.sink s.outputDir
  let disk := (← get).disk
  match s.indexPath?.filter fun _ => useIndex with
  | none =>
    let (report, dir) ← writeWith s sink ds { disk }
    setDisk dir.disk
    return (report, dir.written, 0)
  | some path =>
    let index ← orFail IndexError.message (Index.load disk path)
    let (report, st) ← writeWith s (Indexed.sink sink) ds { next := { disk }, index, runId }
    let (r, disk) := st.index.save path st.next.disk
    setDisk disk
    orFail WriteError.message r
    return (report, st.next.written, st.skipped)

/-- Prints what became of each type. -/
def printOutcome (verbose : Bool) (o : Outcome) : RunM Unit :=
  match o.error with
  | some e => complain s!"FAIL {o.type}: {e.message}\n"
  | none =>
    let paths := ", ".intercalate o.paths
    if verbose then say s!"ok   {o.type} ({paths})\n" else return

def write (runId : String) (a : Arguments) (s : Settings) (ds : List Decl) : RunM Unit := do
  let (report, written, skipped) ← writeDecls runId s (!a.noIndex) ds
  report.forM (printOutcome a.verbose)
  say s!"Wrote {written.length} class files to {s.outputDir} ({skipped} unchanged)\n"
  let failed := report.failed.length
  if 0 < failed then fail s!"{failed} of {ds.length} types failed"

/-! ### Runs -/

/-- A run with arguments that make sense. -/
def runWith (runId : String) (a : Arguments) : RunM Unit := do
  if a.list then Sample.all.forM fun (name, _) => say (Sample.qualified name ++ "\n")
  else
    let s ← settings a
    openLog s
    let ds ← orFail SampleError.message (samples a.samples)
    if a.listing then printListings s.options ds else write runId a s ds

/-- How a run ended, and what it left. -/
structure Ending extends World where
  code : Nat

def run (runId : String) (args : List String) (disk : Disk) : Ending :=
  match (Arguments.read {} args) with
  | .error e =>
    let lines := (e.message?.map (· ++ "\n")).getD ""
    ⟨{ disk, err := lines ++ usage }, if e = .help then 0 else 2⟩
  | .ok a =>
    match (runWith runId a).run.run { disk } with
    | (.ok (), w) => ⟨w, 0⟩
    | (.error code, w) => ⟨w, code⟩

end Classwright.Command
