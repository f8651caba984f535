import Classwright.ClassFile.Basic

/-!
Attributes that hold pool indices, and the code attribute.
-/

namespace Classwright

/-- Computations that add to a pool and may be refused. -/
abbrev EncodeM := StateT Pool (Except EncodeError)

/-- Runs additions that are never refused. -/
def pooled {α : Type} (m : PoolM α) : EncodeM α := fun p => .ok (m.run p)

/-- A body under a name that is added to the pool after it. -/
def Attribute.named (name : String) (data : Bytes) : PoolM Attribute := do
  return ⟨← Pool.utf8 name, data⟩

/-- The body of a method. -/
structure CodeAttribute where
  maxStack : UInt16
  maxLocals : UInt16
  code : Bytes
  handlers : List ExceptionEntry
  attributes : List Attribute
  deriving DecidableEq, Repr

def ExceptionEntry.bytes (e : ExceptionEntry) : Bytes :=
  Bytes.ofU16 e.start ++ Bytes.ofU16 e.stop ++ Bytes.ofU16 e.handler ++ Bytes.ofU16 e.catchType

def CodeAttribute.encode (c : CodeAttribute) : EncodeM Attribute := do
  let handlers ← Encode.count c.handlers.length "exception handlers"
  let attributes ← Encode.attributes c.attributes
  pooled (Attribute.named "Code" [Bytes.ofU16 c.maxStack, Bytes.ofU16 c.maxLocals,
    Bytes.ofU32 (UInt32.ofNat c.code.length), c.code, handlers,
    c.handlers.flatMap ExceptionEntry.bytes, attributes].flatten)

/-- A row of the table of member classes, by internal names. -/
structure InnerClass where
  inner : String
  outer : String
  simple : String
  access : UInt16
  deriving DecidableEq, Repr

structure RecordComponent where
  name : String
  desc : String
  attributes : List Attribute

/-- A length in two bytes. -/
def lengthBytes {α : Type} (xs : List α) : Bytes := Bytes.ofU16 (UInt16.ofNat xs.length)

namespace Attribute

def signature (sig : String) : PoolM Attribute := do
  named "Signature" (Bytes.ofU16 (← Pool.utf8 sig))

def sourceFile (name : String) : PoolM Attribute := do
  named "SourceFile" (Bytes.ofU16 (← Pool.utf8 name))

def innerClasses (rows : List InnerClass) : PoolM Attribute := do
  let rows' ← rows.mapM fun c => do
    let inner ← Pool.cls c.inner
    let outer ← Pool.cls c.outer
    let simple ← Pool.utf8 c.simple
    return [inner, outer, simple, c.access].flatMap Bytes.ofU16
  named "InnerClasses" (lengthBytes rows ++ rows'.flatten)

def nestHost (host : String) : PoolM Attribute := do
  named "NestHost" (Bytes.ofU16 (← Pool.cls host))

def nestMembers (members : List String) : PoolM Attribute := do
  let classes ← members.mapM Pool.cls
  named "NestMembers" (lengthBytes members ++ classes.flatMap Bytes.ofU16)

def record (components : List RecordComponent) : EncodeM Attribute := do
  let rows ← components.mapM fun c => do
    let name ← pooled (Pool.utf8 c.name)
    let desc ← pooled (Pool.utf8 c.desc)
    return Bytes.ofU16 name ++ Bytes.ofU16 desc ++ (← Encode.attributes c.attributes)
  pooled (named "Record" (lengthBytes components ++ rows.flatten))

end Attribute

/-! ### Annotations -/

mutual

/-- An annotation by descriptors and pool indices. -/
inductive AnnotationTree where
  | mk (type : String) (elements : List ElementTree)

/-- A named element. -/
inductive ElementTree where
  | mk (name : String) (value : ValueTree)

/-- A tagged element value. Constants have the letter of their type; a tag that is none of the known
ones is refused when it is written. -/
inductive ValueTree where
  | const (tag : Char) (index : UInt16)
  | enumConst (type name : String)
  | cls (desc : String)
  | nested (tree : AnnotationTree)
  | emptyNested
  | array (values : List ValueTree)

end

instance : Inhabited AnnotationTree := ⟨.mk "" []⟩
instance : Inhabited ValueTree := ⟨.emptyNested⟩

/-- The tags of constants. -/
def constantTags : List Char := ['B', 'C', 'D', 'F', 'I', 'J', 'S', 'Z', 's']

mutual

def AnnotationTree.encode : AnnotationTree → EncodeM Bytes
  | .mk type elements => do
    let type ← pooled (Pool.utf8 type)
    return Bytes.ofU16 type ++ lengthBytes elements ++ (← encodeElements elements)

def encodeElements : List ElementTree → EncodeM Bytes
  | [] => return []
  | .mk name v :: es => do
    let name ← pooled (Pool.utf8 name)
    let v ← v.encode
    return Bytes.ofU16 name ++ v ++ (← encodeElements es)

def ValueTree.encode : ValueTree → EncodeM Bytes
  | .const tag index =>
    if constantTags.contains tag then return tag.toNat.toUInt8 :: Bytes.ofU16 index
    else throw (.unknownTag tag)
  | .enumConst type name => do
    let type ← pooled (Pool.utf8 type)
    let name ← pooled (Pool.utf8 name)
    return 'e'.toNat.toUInt8 :: (Bytes.ofU16 type ++ Bytes.ofU16 name)
  | .cls desc => do return 'c'.toNat.toUInt8 :: Bytes.ofU16 (← pooled (Pool.utf8 desc))
  | .nested tree => do return '@'.toNat.toUInt8 :: (← tree.encode)
  | .emptyNested => throw .emptyNested
  | .array values => do
    return '['.toNat.toUInt8 :: (lengthBytes values ++ (← encodeValues values))

def encodeValues : List ValueTree → EncodeM Bytes
  | [] => return []
  | v :: vs => do
    let v ← v.encode
    return v ++ (← encodeValues vs)

end

def Attribute.annotations (trees : List AnnotationTree) : EncodeM Attribute := do
  let bodies ← trees.mapM AnnotationTree.encode
  pooled (named "RuntimeVisibleAnnotations" (lengthBytes trees ++ bodies.flatten))

end Classwright
