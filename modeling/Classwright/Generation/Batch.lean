import Classwright.Generation.Class

/-!
Artifacts of declarations.

The types that are generated together know each other: a `Batch` has the declarations by name and
their hierarchy. A unit is a top-level declaration with its member types, and its artifacts are made
all or none.
-/

namespace Classwright

/-- A class file under the binary name and the path of its class. -/
structure Artifact where
  name : String
  path : String
  data : Bytes
  deriving DecidableEq, Repr

def ClassTy.path (c : ClassTy) : String := c.internal ++ ".class"

/-- What the types of a batch know of each other. Of two declarations of one name the later
counts. -/
structure Batch where
  types : List Contents := []
  hierarchy : Hierarchy := {}

namespace Batch

def add (b : Batch) (c : Contents) : Except Misuse Batch := do
  let hierarchy ← if c.isInterface then pure (b.hierarchy.declare c.ty.internal "" true)
    else do pure (b.hierarchy.declare c.ty.internal (← c.super.internal) false)
  return ⟨c :: b.types, hierarchy⟩

def ofDecls (ds : List Decl) : Except Misuse Batch :=
  (ds.flatMap Decl.walk).foldlM (fun b d => b.add d.contents) {}

end Batch

structure UnitError where
  unit : String
  cause : Generation.ClassError

def UnitError.message (e : UnitError) : String := s!"generate {e.unit}: {e.cause.message}"

namespace Generation

/-- The artifact of a declaration of a nest. -/
def artifact (o : Options) (b : Batch) (n : Nest) (d : Decl) : Except ClassError Artifact := do
  let cf ← classFile o n b.types b.hierarchy d
  return ⟨d.name, d.ty.path, ← cf.bytes.mapError .encode⟩

/-- The artifacts of a unit, outermost first. -/
def unit (o : Options) (b : Batch) (d : Decl) : Except UnitError (List Artifact) :=
  (d.walk.mapM (artifact o b (.ofDecl d))).mapError (⟨d.name, ·⟩)

/-- The artifacts of a unit on its own. -/
def generate (o : Options) (d : Decl) : Except UnitError (List Artifact) := do
  let b ← (Batch.ofDecls [d]).mapError fun m => (⟨d.name, .misuse m⟩ : UnitError)
  unit o b d

end Generation

end Classwright
