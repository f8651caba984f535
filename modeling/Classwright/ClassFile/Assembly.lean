import Classwright.Bytecode.Program
import Classwright.ClassFile.Attribute

/-!
Assembling whole class files from the parts of their members and attributes.
-/

namespace Classwright

mutual

/-- An attribute by its parts. -/
inductive AttributePart where
  | signature (sig : String)
  | sourceFile (name : String)
  | innerClasses (rows : List InnerClass)
  | nestHost (host : String)
  | nestMembers (members : List String)
  | record (components : List ComponentPart)
  | annotations (trees : List AnnotationTree)
  | code (program : List Directive) (maxStack maxLocals : UInt16) (attributes : List AttributePart)
  | raw (name : String) (data : Bytes)

inductive ComponentPart where
  | mk (name desc : String) (attributes : List AttributePart)

end

instance : Inhabited AttributePart := ⟨.signature ""⟩

/-- A member by its parts. -/
structure MemberPart where
  access : UInt16
  name : String
  desc : String
  attributes : List AttributePart

/-- A class by its parts. -/
structure ClassPart where
  major : UInt16
  access : UInt16
  name : String
  super : String
  interfaces : List String
  fields : List MemberPart
  methods : List MemberPart
  attributes : List AttributePart

/-- Why parts do not make a class file. -/
inductive AssemblyError where
  | misuse (m : Misuse)
  | code (e : CodeError)
  | encode (e : EncodeError)

/-- Computations that add to a pool and may fail. -/
abbrev AssembleM := StateT Pool (Except AssemblyError)

/-- Encoding as a part of assembling. -/
def encoded {α : Type} (m : EncodeM α) : AssembleM α := fun p => (m.run p).mapError .encode

def added {α : Type} (m : PoolM α) : AssembleM α := fun p => .ok (m.run p)

/-- Runs a program on the pool, for its code and exception table. -/
def runProgram (program : List Directive) :
    AssembleM (Bytes × List ExceptionEntry) := fun pool => do
  let a ← (Assembly.run { pool } program).mapError .misuse
  let r ← a.code.finish.mapError .code
  return (r, a.pool)

mutual

def AttributePart.assemble : AttributePart → AssembleM Attribute
  | .signature sig => added (Attribute.signature sig)
  | .sourceFile name => added (Attribute.sourceFile name)
  | .innerClasses rows => added (Attribute.innerClasses rows)
  | .nestHost host => added (Attribute.nestHost host)
  | .nestMembers members => added (Attribute.nestMembers members)
  | .record components => do
    let components ← assembleComponents components
    encoded (Attribute.record components)
  | .annotations trees => encoded (Attribute.annotations trees)
  | .code program maxStack maxLocals attributes => do
    let (code, handlers) ← runProgram program
    let attributes ← assembleAll attributes
    encoded (CodeAttribute.encode ⟨maxStack, maxLocals, code, handlers, attributes⟩)
  | .raw name data => added (Attribute.named name data)

def assembleAll : List AttributePart → AssembleM (List Attribute)
  | [] => return []
  | a :: as => do
    let a ← a.assemble
    return a :: (← assembleAll as)

def assembleComponents : List ComponentPart → AssembleM (List RecordComponent)
  | [] => return []
  | .mk name desc attributes :: cs => do
    let attributes ← assembleAll attributes
    return ⟨name, desc, attributes⟩ :: (← assembleComponents cs)

end

def MemberPart.assemble (m : MemberPart) : AssembleM Member := do
  let attributes ← assembleAll m.attributes
  added (ClassFile.member m.access m.name m.desc attributes)

/-- The bytes of a class. -/
def ClassPart.assemble (c : ClassPart) : Except AssemblyError Bytes := do
  let cf := ClassFile.ofNames c.major c.access c.name c.super c.interfaces
  let members : AssembleM (List Member × List Member × List Attribute) := do
    let fields ← c.fields.mapM MemberPart.assemble
    let methods ← c.methods.mapM MemberPart.assemble
    return (fields, methods, ← assembleAll c.attributes)
  let ((fields, methods, attributes), pool) ← members.run cf.pool
  { cf with pool, fields, methods, attributes }.bytes.mapError .encode

end Classwright
