import Classwright.ClassFile.Reader
import Classwright.Bytecode.Insn
import Classwright.Frame.Hierarchy
import Classwright.ClassFile.Descriptor
import Classwright.Machine.Platform
import Classwright.Machine.Value

/-!
The state of the machine: loaded classes, the heap and the monitors.

Computations may stop with an exception, which code can catch, or with a fault, which it cannot.
Either way the state stays as it is then.
-/

namespace Classwright.Machine

/-! ### Classes -/

/-- What a method runs. -/
inductive Body where
  | code (c : CodeAttribute) (insns : Array (Option Insn))
  | platform (p : Platform)
  | none

/-- A method that can be run. -/
structure Routine where
  owner : String
  name : String
  desc : String
  body : Body
  pool : Pool

namespace Routine

def text (r : Routine) : String := r.owner ++ "." ++ r.name ++ r.desc

def isAbstract (r : Routine) : Bool :=
  match r.body with
  | .none => true
  | _ => false

def ofPlatform (cls name desc : String) (p : Platform) : Routine :=
  ⟨cls, name, desc, .platform p, .empty⟩

end Routine

/-- How far the static initializer of a class has come. -/
inductive Phase where
  | untouched | started | done
  deriving DecidableEq, Repr

/-- A loaded class. Its methods are found by name and descriptor in one text. -/
structure LoadedClass where
  name : String
  super : String
  interfaces : List String
  access : UInt16
  file : ClassFile
  routines : List (String × Routine)
  statics : List (String × Value) := []
  phase : Phase := .untouched

def LoadedClass.isInterface (c : LoadedClass) : Bool := Access.has c.access Access.interface

/-! ### The state -/

/-- Objects and arrays are found by their positions; the first object has the identity 1. -/
structure State where
  classes : List (String × LoadedClass) := []
  hierarchy : Hierarchy := {}
  objects : Array Obj := #[]
  arrays : Array ArrayObj := #[]
  classObjects : List (String × Nat) := []
  monitors : List (Value × Nat) := []
  enters : Nat := 0
  exits : Nat := 0

/-- What code cannot catch. A `crash` breaks the contract of a platform method. -/
inductive Fault where
  | noClass (what : String)
  | noMethod (what : String)
  | badCode
  | tooDeep (what : String)
  | pool (e : PoolError)
  | descriptor (e : DescriptorError)
  | crash
  deriving DecidableEq, Repr

def Fault.family? : Fault → Option Family
  | noClass _ => some .noClass
  | noMethod _ => some .noMethod
  | badCode => some .badCode
  | tooDeep _ => some .stackDepth
  | pool _ | descriptor _ | crash => none

def Fault.message : Fault → String
  | noClass what => "class not found: " ++ what
  | noMethod what => "method not found: " ++ what
  | badCode => "invalid bytecode"
  | tooDeep what => "call stack too deep: " ++ what
  | pool e => e.message
  | descriptor e => e.message
  | crash => "crash"

/-- Why a computation ends without a value. -/
inductive Stop where
  | thrown (id : Nat)
  | fault (f : Fault)
  | fuel
  deriving DecidableEq, Repr

/-- Computations of the machine. -/
abbrev Exec := ExceptT Stop (StateM State)

def fault {α : Type} (f : Fault) : Exec α := throw (.fault f)

def crash {α : Type} : Exec α := fault .crash

def badCode {α : Type} : Exec α := fault .badCode

/-- A value that must be there. -/
def sure {α : Type} : Option α → Exec α
  | some a => return a
  | none => crash

def pooled {α : Type} : Except PoolError α → Exec α
  | .ok a => return a
  | .error e => fault (.pool e)

def unbroken {α : Type} : Except Misuse α → Exec α
  | .ok a => return a
  | .error _ => crash

/-! ### The heap -/

namespace State

def object? (s : State) (id : Nat) : Option Obj := if id = 0 then none else s.objects[id - 1]?

def array? (s : State) (id : Nat) : Option ArrayObj := s.arrays[id]?

def changeObject (s : State) (id : Nat) (f : Obj → Obj) : State :=
  { s with objects := s.objects.modify (id - 1) f }

def changeArray (s : State) (id : Nat) (f : ArrayObj → ArrayObj) : State :=
  { s with arrays := s.arrays.modify id f }

end State

/-- The class names that messages have. -/
def dotted (cls : String) : String := binaryOfInternal cls

/-- A new object, with the next identity. -/
def newObject (cls : String) : Exec Nat := do
  modify fun s => { s with objects := s.objects.push { cls } }
  return (← get).objects.size

def newArray (desc : String) (data : Array Value) : Exec Value := do
  modify fun s => { s with arrays := s.arrays.push ⟨desc, data⟩ }
  return .arr ((← get).arrays.size - 1)

def getObject (id : Nat) : Exec Obj := do sure ((← get).object? id)

def getArray (id : Nat) : Exec ArrayObj := do sure ((← get).array? id)

def setField (id : Nat) (name : String) (v : Value) : Exec Unit :=
  modify fun s => s.changeObject id fun o => { o with fields := put name v o.fields }

def setNative (id : Nat) (n : Native) : Exec Unit :=
  modify fun s => s.changeObject id fun o => { o with native := n }

/-- The field that has the message of an exception. -/
def messageField : String := "$message"

/-- Throws a new exception; an empty message is none. -/
def raise {α : Type} (cls message : String) : Exec α := do
  let id ← newObject cls
  if message != "" then setField id messageField (.str message)
  throw (.thrown id)

/-- The message of an exception, if it is a text. -/
def Obj.message? (o : Obj) : Option String :=
  match o.fields.lookup messageField with
  | some (.str s) => some s
  | _ => none

/-- An exception as text. -/
def Obj.exceptionText (o : Obj) : String :=
  match o.message? with
  | some message => dotted o.cls ++ ": " ++ message
  | none => dotted o.cls

/-- The object that stands for a class; there is one for each name. -/
def classObject (name : String) : Exec Value := do
  match (← get).classObjects.lookup name with
  | some id => return .obj id
  | none =>
    let id ← newObject "java/lang/Class"
    setNative id (.value (.str name))
    modify fun s => { s with classObjects := (name, id) :: s.classObjects }
    return .obj id

/-- The class of a value; numbers count as plain objects. -/
def State.classOf (s : State) : Value → String
  | .str _ => "java/lang/String"
  | .obj id => ((s.object? id).map (·.cls)).getD objectClass
  | .arr id => ((s.array? id).map (·.desc)).getD objectClass
  | _ => objectClass

/-! ### The class hierarchy -/

namespace State

def class? (s : State) (name : String) : Option LoadedClass := s.classes.lookup name

def changeClass (s : State) (name : String) (f : LoadedClass → LoadedClass) : State :=
  { s with classes := s.classes.map fun (n, c) => (n, if n = name then f c else c) }

/-- The superclass; the root has none. -/
def superOf (s : State) (cls : String) : String :=
  if cls = objectClass then ""
  else match s.class? cls with
    | some c => c.super
    | none =>
      match s.hierarchy.super? cls with
      | some "" | none => objectClass
      | some super => super

def interfacesOf (s : State) (cls : String) : List String :=
  match s.class? cls with
  | some c => c.interfaces
  | none => (Platform.interfaces.lookup cls).getD []

def chainUpTo (s : State) : Nat → String → List String
  | 0, _ => []
  | n + 1, cls => if cls = "" then [] else cls :: s.chainUpTo n (s.superOf cls)

/-- More steps up than this repeat a class. -/
def height (s : State) : Nat := s.classes.length + platform.length + 2

/-- A class and its superclasses, the nearest first. -/
def chain (s : State) (cls : String) : List String := s.chainUpTo s.height cls

/-- Whether a class has an interface of its own or through another interface. -/
def implementsUpTo (s : State) (interface : String) : Nat → String → Bool
  | 0, _ => false
  | n + 1, cls => (s.interfacesOf cls).any fun i => i == interface || s.implementsUpTo interface n i

/-- Whether a class is another one, extends it or implements it. -/
def extends' (s : State) (source target : String) : Bool :=
  (s.chain source).any fun c => c == target || s.implementsUpTo target s.height c

/-- Whether a value of one class or array type may stand for another. -/
def assignableUpTo (s : State) : Nat → String → String → Except Misuse Bool
  | 0, _, _ => .error .broken
  | n + 1, source, target => do
    if source = target ∨ target = objectClass then return true
    match source.toList, target.toList with
    | '[' :: ss, '[' :: ts =>
      if !(← Hierarchy.isReferenceDescriptor ss) then return ss == ts
      if !(← Hierarchy.isReferenceDescriptor ts) then return ss == ts
      s.assignableUpTo n (← Hierarchy.descriptorClass ss) (← Hierarchy.descriptorClass ts)
    | '[' :: _, _ => return target == "java/lang/Cloneable" || target == "java/io/Serializable"
    | _, _ => return s.extends' source target

def isAssignable (s : State) (source target : String) : Except Misuse Bool :=
  s.assignableUpTo (source.length + 1) source target

end State

/-- Whether a value is of a class; null is of none. -/
def instanceOf (v : Value) (cls : String) : Exec Bool := do
  if v.isNull then return false
  let s ← get
  unbroken (s.isAssignable (s.classOf v) cls)

/-! ### Loading -/

/-- Why a class cannot be loaded. -/
inductive LoadError where
  | read (e : ReadError)
  | pool (e : PoolError)
  | code (method : String) (e : ReadError)
  | decode (method : String) (e : DecodeError)

def LoadError.message? : LoadError → Option String
  | read e => some e.message
  | pool e => some e.message
  | code method e => some (method ++ ": " ++ e.message)
  | decode method e => e.message?.map (method ++ ": " ++ ·)

/-- Instructions by their offsets. -/
def insnTable (size : Nat) (insns : List Insn) : Array (Option Insn) :=
  insns.foldl (fun t i => t.setIfInBounds i.offset (some i)) (Array.replicate size none)

def loadRoutine (cf : ClassFile) (cls : String) (m : Member) : Except LoadError Routine := do
  let (name, desc) ← (cf.memberName m).mapError .pool
  let method := cls ++ "." ++ name ++ desc
  match ← (cf.code? m).mapError (.code method) with
  | none => return ⟨cls, name, desc, .none, cf.pool⟩
  | some c =>
    let insns ← (Insn.decodeAll c.code).mapError (.decode method)
    return ⟨cls, name, desc, .code c (insnTable c.code.length insns), cf.pool⟩

/-- Reads a class. -/
def LoadedClass.ofBytes (data : Bytes) : Except LoadError LoadedClass := do
  let cf ← (ClassFile.parse data).mapError .read
  let name ← cf.name.mapError .pool
  let super ← cf.superName.mapError .pool
  let interfaces ← cf.interfaces.mapM fun i => (cf.pool.classAt i).mapError .pool
  let routines ← cf.methods.mapM (loadRoutine cf name)
  return {
    name
    super
    interfaces
    access := cf.access
    file := cf
    routines := (routines.map fun r => (r.name ++ r.desc, r)).reverse }

/-- Adds a class in the place of one with its name. -/
def State.addClass (s : State) (c : LoadedClass) : State :=
  { s with
    classes := put c.name c s.classes
    hierarchy := s.hierarchy.declare c.name c.super c.isInterface }

end Classwright.Machine
