import Classwright.Artifact.Disk
import Classwright.Generation.Batch

/-!
Sinks for artifacts.

A sink takes artifacts one by one, and some sinks take the artifacts of a unit together. What a sink
has stored is its state; a write that fails may have changed it.
-/

namespace Classwright

inductive WriteError where
  | refused
  | invalidPath (path : String)
  | createDir (dir : String) (cause : FileFault)
  | writeFile (path : String) (cause : FileFault)
  | writing (path : String) (cause : WriteError)
  deriving DecidableEq, Repr

namespace WriteError

def message : WriteError → String
  | refused => "sink refused"
  | invalidPath path => "invalid artifact path " ++ Text.quoted path
  | createDir dir cause => s!"cannot create {dir}: {cause.message}"
  | writeFile path cause => s!"cannot write {path}: {cause.message}"
  | writing path cause => s!"write {path}: {cause.message}"

/-- Whether the fault is that of the files rather than of the artifact or the sink. -/
def isFileFault : WriteError → Bool
  | refused | invalidPath _ => false
  | createDir .. | writeFile .. => true
  | writing _ cause => cause.isFileFault

end WriteError

/-- A sink with states `σ`. -/
structure Sink (σ : Type) where
  write : Artifact → σ → Except WriteError Unit × σ
  writeUnit : Option (List Artifact → σ → Except WriteError Unit × σ)

namespace Sink

/-- Writes artifacts one by one up to the first that fails, and lists the paths that were
written. -/
def writeEach {σ : Type} (s : Sink σ) : List Artifact → σ → (List String × Option WriteError) × σ
  | [], st => (([], none), st)
  | a :: as, st =>
    match s.write a st with
    | (.error e, st) => (([], some (.writing a.path e)), st)
    | (.ok (), st) =>
      let ((paths, e), st) := s.writeEach as st
      ((a.path :: paths, e), st)

/-- Writes the artifacts of a unit, together if the sink can, and lists the paths that were
written. -/
def writeAll {σ : Type} (s : Sink σ) (as : List Artifact) (st : σ) :
    (List String × Option WriteError) × σ :=
  match s.writeUnit with
  | some f =>
    match f as st with
    | (.ok (), st) => ((as.map (·.path), none), st)
    | (.error e, st) => (([], some e), st)
  | none => s.writeEach as st

/-- Writes the artifacts of a unit, together if the sink can. -/
def writeTogether {σ : Type} (s : Sink σ) (as : List Artifact) (st : σ) :
    Except WriteError Unit × σ :=
  match s.writeAll as st with
  | ((_, some e), st) => (.error e, st)
  | ((_, none), st) => (.ok (), st)

end Sink

/-! ### Memory -/

structure Memory where
  artifacts : List Artifact := []

namespace Memory

def get? (m : Memory) (name : String) : Option Artifact := m.artifacts.find? (·.name == name)

/-- Stores an artifact in the place of one with its name. -/
def put (m : Memory) (a : Artifact) : Memory := ⟨a :: m.artifacts.filter (·.name != a.name)⟩

def sorted (m : Memory) : List Artifact := m.artifacts.mergeSort fun a b => a.name ≤ b.name

/-- The sink that keeps all. -/
def sink : Sink Memory where
  write a m := (.ok (), m.put a)
  writeUnit := some fun as m => (.ok (), as.foldl put m)

/-- A sink that refuses some paths and stores one artifact at a time. -/
def refusing (paths : List String) : Sink Memory where
  write a m := if paths.contains a.path then (.error .refused, m) else (.ok (), m.put a)
  writeUnit := none

/-- A sink that refuses a unit with one of some paths. -/
def refusingUnits (paths : List String) : Sink Memory where
  write := (refusing paths).write
  writeUnit := some fun as m =>
    if as.any fun a => paths.contains a.path then (.error .refused, m) else (.ok (), as.foldl put m)

end Memory

/-! ### Batches -/

inductive OutcomeError where
  | duplicate (name : String)
  | generate (cause : UnitError)
  | write (unit : String) (cause : WriteError)

def OutcomeError.message : OutcomeError → String
  | duplicate name => s!"duplicate type in batch: {name}"
  | generate cause => cause.message
  | write unit cause => s!"{unit}: {cause.message}"

def OutcomeError.family? : OutcomeError → Option Family
  | duplicate _ => some .duplicateType
  | generate e => e.cause.family?
  | write .. => none

structure Outcome where
  type : String
  paths : List String
  error : Option OutcomeError

/-- The outcomes of a batch, in the order of its types. -/
abbrev Report := List Outcome

namespace Report

def failed (r : Report) : Report := r.filter (·.error.isSome)

def written (r : Report) : Nat := (r.map (·.paths.length)).foldr (· + ·) 0

def message? (r : Report) : Option String :=
  match r.filterMap (·.error) with
  | [] => none
  | es => some ("\n".intercalate (es.map OutcomeError.message))

def family? (r : Report) : Option Family :=
  Family.first? ((r.filterMap (·.error)).filterMap OutcomeError.family?)

end Report

namespace Batch

/-- The declarations whose names were not met before, with their positions. -/
def units (seen : List String) (first : Nat) : List Decl → List (Nat × Decl)
  | [] => []
  | d :: ds =>
    if seen.contains d.name then units seen (first + 1) ds
    else (first, d) :: units (d.name :: seen) (first + 1) ds

/-- The order in which workers write the units that they are handed. One worker writes them in turn.
Of several, each gets a unit in a round, and the one that was handed its unit last is the first to
write. -/
def schedule {α : Type} (workers : Nat) (xs : List α) : List α :=
  if workers ≤ 1 then xs
  else
    match xs with
    | [] => []
    | x :: rest =>
      let round := (x :: rest).take workers
      round.getLast?.toList ++ round.dropLast ++ schedule workers (rest.drop (workers - 1))
termination_by xs.length
decreasing_by simp only [List.length_drop, List.length_cons]; omega

def writeUnit {σ : Type} (o : Options) (b : Batch) (s : Sink σ) (d : Decl) (st : σ) : Outcome × σ :=
  match Generation.unit o b d with
  | .error e => (⟨d.name, [], some (.generate e)⟩, st)
  | .ok as =>
    let ((paths, e), st) := s.writeAll as st
    (⟨d.name, paths, e.map (.write d.name)⟩, st)

/-- Generates and writes units one after the other, and gives each position its outcome. -/
def writeUnits {σ : Type} (o : Options) (b : Batch) (s : Sink σ) :
    List (Nat × Decl) → σ → List (Nat × Outcome) × σ
  | [], st => ([], st)
  | (i, d) :: ds, st =>
    let (out, st) := writeUnit o b s d st
    let (outs, st) := writeUnits o b s ds st
    ((i, out) :: outs, st)

/-- The outcomes in the order of the declarations; one without an outcome had the name of
another. -/
def report (ds : List Decl) (outs : List (Nat × Outcome)) : Report :=
  ds.mapIdx fun i d => (outs.lookup i).getD ⟨d.name, [], some (.duplicate d.name)⟩

/-- Generates and writes the types of a batch in some order of its units. A type that fails leaves
the others alone, and a name that was met before is refused. -/
def writeIn {σ : Type} (order : List (Nat × Decl) → List (Nat × Decl)) (o : Options) (s : Sink σ)
    (ds : List Decl) (st : σ) : Except Misuse (Report × σ) := do
  let us := units [] 0 ds
  let b ← Batch.ofDecls (us.map (·.2))
  let (outs, st) := writeUnits o b s (order us) st
  return (report ds outs, st)

/-- Generates and writes the types of a batch with a number of workers. -/
def writeAll {σ : Type} (workers : Nat) (o : Options) (s : Sink σ) (ds : List Decl) (st : σ) :
    Except Misuse (Report × σ) :=
  writeIn (schedule workers) o s ds st

end Batch

end Classwright
