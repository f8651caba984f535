import Classwright.Bytecode.Assembler
import Classwright.ClassFile.ModifiedUtf8
import Classwright.ClassFile.Pool
import Classwright.Text.Quoted

/-!
Class files: a constant pool, members and attributes, all by pool index, and their bytes.
-/

namespace Classwright

/-! ### Contents -/

/-- A named attribute with its encoded body. -/
structure Attribute where
  name : UInt16
  data : Bytes
  deriving DecidableEq, Repr

/-- A field or method. -/
structure Member where
  access : UInt16
  name : UInt16
  desc : UInt16
  attributes : List Attribute
  deriving DecidableEq, Repr

structure ClassFile where
  minor : UInt16 := 0
  major : UInt16
  pool : Pool
  access : UInt16
  this : UInt16
  super : UInt16 := 0
  interfaces : List UInt16 := []
  fields : List Member := []
  methods : List Member := []
  attributes : List Attribute := []

/-- Why something cannot be written. -/
inductive EncodeError where
  | overflow
  | longText (size : Nat)
  | tooMany (what : String) (n : Nat)
  | emptyNested
  | unknownTag (tag : Char)
  deriving DecidableEq, Repr

def EncodeError.message : EncodeError → String
  | overflow => "constant pool overflow"
  | longText size => s!"string constant of {size} bytes exceeds 65535"
  | tooMany what n => s!"too many {what}: {n}"
  | emptyNested => "nested annotation element without annotation"
  | unknownTag tag => s!"unknown element value tag {Text.quotedChar tag}"

def EncodeError.family? : EncodeError → Option Family
  | overflow => some .poolOverflow
  | _ => none

/-! ### Access flags -/

namespace Access

def pub : UInt16 := 0x0001
def priv : UInt16 := 0x0002
def prot : UInt16 := 0x0004
def static : UInt16 := 0x0008
def final : UInt16 := 0x0010
def super : UInt16 := 0x0020
def synchronized : UInt16 := 0x0020
def volatile : UInt16 := 0x0040
def transient : UInt16 := 0x0080
def interface : UInt16 := 0x0200
def abstract : UInt16 := 0x0400
def synthetic : UInt16 := 0x1000
def annotationType : UInt16 := 0x2000
def enum : UInt16 := 0x4000

/-- Whether a flag is set. -/
def has (flags flag : UInt16) : Bool := flags &&& flag != 0

end Access

/-! ### Writing -/

namespace Encode

/-- A count of things, refused if it does not fit. -/
def count (n : Nat) (what : String) : Except EncodeError Bytes :=
  if 65535 < n then .error (.tooMany what n) else .ok (Bytes.ofU16 (UInt16.ofNat n))

def oneAttribute (a : Attribute) : Bytes :=
  Bytes.ofU16 a.name ++ Bytes.ofU32 (UInt32.ofNat a.data.length) ++ a.data

def attributes (as : List Attribute) : Except EncodeError Bytes := do
  return (← count as.length "attributes") ++ as.flatMap oneAttribute

def member (m : Member) : Except EncodeError Bytes := do
  return Bytes.ofU16 m.access ++ Bytes.ofU16 m.name ++ Bytes.ofU16 m.desc ++
    (← attributes m.attributes)

def members (ms : List Member) : Except EncodeError Bytes := do
  let n ← count ms.length "members"
  return n ++ (← ms.mapM member).flatten

def entry (e : Entry) : Except EncodeError Bytes := do
  let body ← match e with
    | .utf8 s =>
      let text := ModifiedUtf8.encode s
      if 65535 < text.length then throw (.longText text.length)
      pure (Bytes.ofU16 (UInt16.ofNat text.length) ++ text)
    | .int bits | .float bits => pure (Bytes.ofU32 bits)
    | .long bits | .double bits => pure (Bytes.ofU64 bits)
    | .cls r | .str r => pure (Bytes.ofU16 r)
    | .field a b | .method a b | .interfaceMethod a b | .nameAndType a b =>
      pure (Bytes.ofU16 a ++ Bytes.ofU16 b)
  return UInt8.ofNat e.tag :: body

def pool (p : Pool) : Except EncodeError Bytes := do
  if p.overflowed then throw .overflow
  let entries ← (p.entries.toList.filterMap id).mapM entry
  return Bytes.ofU16 (UInt16.ofNat p.count) ++ entries.flatten

end Encode

namespace ClassFile

/-- The first four bytes of a class file. -/
def magic : UInt32 := 0xCAFEBABE

/-- A class by internal names; the name of the superclass may be empty. -/
def ofNames (major access : UInt16) (name super : String) (interfaces : List String) : ClassFile :=
  let build : PoolM (UInt16 × UInt16 × List UInt16) := do
    let this ← Pool.cls name
    let super ← if super.isEmpty then pure 0 else Pool.cls super
    return (this, super, ← interfaces.mapM Pool.cls)
  let ((this, super, interfaces), pool) := build.run .empty
  { major, pool, access, this, super, interfaces }

/-- A member whose name and descriptor are added to the pool. -/
def member (access : UInt16) (name desc : String) (attributes : List Attribute) : PoolM Member := do
  let name ← Pool.utf8 name
  let desc ← Pool.utf8 desc
  return ⟨access, name, desc, attributes⟩

def addField (cf : ClassFile) (access : UInt16) (name desc : String) (attributes : List Attribute) :
    ClassFile :=
  let (m, pool) := (member access name desc attributes).run cf.pool
  { cf with pool, fields := cf.fields ++ [m] }

def addMethod (cf : ClassFile) (access : UInt16) (name desc : String)
    (attributes : List Attribute) : ClassFile :=
  let (m, pool) := (member access name desc attributes).run cf.pool
  { cf with pool, methods := cf.methods ++ [m] }

def name (cf : ClassFile) : Except PoolError String := cf.pool.classAt cf.this

/-- The name of the superclass, empty if there is none. -/
def superName (cf : ClassFile) : Except PoolError String :=
  if cf.super = 0 then .ok "" else cf.pool.classAt cf.super

/-- The bytes of a class file. -/
def bytes (cf : ClassFile) : Except EncodeError Bytes := do
  let interfaces ← Encode.count cf.interfaces.length "interfaces"
  let fields ← Encode.members cf.fields
  let methods ← Encode.members cf.methods
  let attributes ← Encode.attributes cf.attributes
  let pool ← Encode.pool cf.pool
  return [Bytes.ofU32 magic, Bytes.ofU16 cf.minor, Bytes.ofU16 cf.major, pool,
    Bytes.ofU16 cf.access, Bytes.ofU16 cf.this, Bytes.ofU16 cf.super,
    interfaces, cf.interfaces.flatMap Bytes.ofU16, fields, methods, attributes].flatten

/-! ### Finding -/

/-- The first attribute of a name. -/
def attribute? (cf : ClassFile) (attributes : List Attribute) (name : String) : Option Attribute :=
  attributes.find? fun a => (cf.pool.utf8At a.name).toOption == some name

/-- The name and descriptor of a member. -/
def memberName (cf : ClassFile) (m : Member) : Except PoolError (String × String) := do
  return (← cf.pool.utf8At m.name, ← cf.pool.utf8At m.desc)

def method? (cf : ClassFile) (name desc : String) : Option Member :=
  cf.methods.find? fun m => (cf.memberName m).toOption == some (name, desc)

def field? (cf : ClassFile) (name : String) : Option Member :=
  cf.fields.find? fun m => (cf.memberName m).toOption.map (·.1) == some name

end ClassFile

end Classwright
