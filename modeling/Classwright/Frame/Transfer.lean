import Classwright.Bytecode.Assembler
import Classwright.Bytecode.Insn
import Classwright.ClassFile.Descriptor
import Classwright.ClassFile.Pool
import Classwright.Frame.VType

/-!
The effect of an instruction on a frame.

A frame is what is known before an instruction: the types of locals, with the second word of a
two-word value as `top`, and the types on the operand stack, topmost first. `Insn.transfer` takes
the frame before an instruction to the one after it, or finds why it does not type-check.
-/

namespace Classwright

structure Frame where
  locals : List VType
  stack : List VType
  deriving DecidableEq, Repr

def Frame.words (f : Frame) : Nat := (f.stack.map VType.words).foldr (· + ·) 0

structure MethodCode where
  owner : String
  desc : String
  isStatic : Bool
  isConstructor : Bool
  code : Bytes
  handlers : List ExceptionEntry
  pool : Pool

/-! ### Faults -/

/-- Why an instruction does not type-check. -/
inductive Fault where
  | emptyBody
  | underflow
  | wantRef (found : VType)
  | wantKind (want found : VType)
  | splits (op : Opcode)
  | unsetLocal (slot : Nat)
  | localNotRef (slot : Nat) (found : VType)
  | localNot (slot : Nat) (found want : VType)
  | unresolved (cause : PoolError)
  | badDescriptor (cause : DescriptorError)
  | arrayType (n : Int)
  | notArray (found : VType)
  | voidReturn (want : String)
  | earlyReturn
  | valueReturn
  | returnType (op : Opcode) (want : String)
  | constructorCall
  | noNew
  | otherConstructor (owner name : String)
  | initialized (found : VType)
  | constantTag (tag : Nat) (op : Opcode)
  | unsupported
  | fallsOff
  | noTarget (target : Int)
  | heights (found wanted : Nat) (source : Nat)
  | slots (i : Nat) (found wanted : VType) (source : Nat)
  deriving DecidableEq, Repr

def Fault.message : Fault → String
  | emptyBody => "empty method body"
  | underflow => "operand stack underflow"
  | wantRef found => s!"expected a reference on the stack, found {found.text}"
  | wantKind want found => s!"expected {want.text} on the stack, found {found.text}"
  | splits op => s!"{op.name} splits a two-word value"
  | unsetLocal slot => s!"load of unset or conflicting local {slot}"
  | localNotRef slot found => s!"local {slot} holds {found.text}, not a reference"
  | localNot slot found want => s!"local {slot} holds {found.text}, not {want.text}"
  | unresolved cause => cause.message
  | badDescriptor cause => cause.message
  | arrayType n => s!"bad newarray type {n}"
  | notArray found => s!"aaload on non-array {found.text}"
  | voidReturn want => s!"void return from a method returning {want}"
  | earlyReturn => "constructor returns before calling a super constructor"
  | valueReturn => "value return from a void method"
  | returnType op want => s!"{op.name} does not match return type {want}"
  | constructorCall => "constructor must be called with invokespecial"
  | noNew => "uninitialized value without a matching new"
  | otherConstructor owner name => s!"constructor of {owner} called on a new {name}"
  | initialized found => s!"constructor called on initialized {found.text}"
  | constantTag tag op => s!"constant of tag {tag} cannot be loaded by {op.name}"
  | unsupported => "unsupported instruction"
  | fallsOff => "execution falls off the end of the code"
  | noTarget target => s!"branch target {target} is not an instruction"
  | heights found wanted source =>
    s!"stack height {found} does not match {wanted} (from offset {source})"
  | slots i found wanted source =>
    s!"stack slot {i}: {found.text} does not merge with {wanted.text} (from offset {source})"

/-- What stops the effect of an instruction. -/
inductive Trouble where
  | fault (f : Fault)
  | misuse (m : Misuse)
  deriving DecidableEq, Repr

abbrev Effect := StateT Frame (Except Trouble)

namespace Effect

def fail {α : Type} (f : Fault) : Effect α := throw (.fault f)

def resolved {α : Type} (r : Except PoolError α) : Effect α :=
  match r with
  | .ok a => return a
  | .error e => fail (.unresolved e)

def sound {α : Type} (r : Except Misuse α) : Effect α :=
  match r with
  | .ok a => return a
  | .error m => throw (.misuse m)

/-! ### Stack and locals -/

def push (v : VType) : Effect Unit := modify fun f => { f with stack := v :: f.stack }

/-- Pushes values, the last of them topmost. -/
def pushAll (vs : List VType) : Effect Unit :=
  modify fun f => { f with stack := vs.reverse ++ f.stack }

def pop : Effect VType := do
  match (← get).stack with
  | [] => fail .underflow
  | v :: rest =>
    modify fun f => { f with stack := rest }
    return v

/-- Pops a value of the same kind as `want`; any reference will do for a reference. -/
def popAs (want : VType) : Effect VType := do
  let v ← pop
  if v.fits want then return v
  else if want.isReference then fail (.wantRef v)
  else fail (.wantKind want v)

def popRef : Effect VType := popAs .null

/-- Pops a one-word value for a stack instruction. -/
def popWord (op : Opcode) : Effect VType := do
  let v ← pop
  if v.isWide then fail (.splits op) else return v

/-- Reads a local of the same kind as `want`. -/
def readLocal (slot : Nat) (want : VType) : Effect VType := do
  match ((← get).locals[slot]?).getD .top with
  | .top => fail (.unsetLocal slot)
  | v =>
    if v.fits want then return v
    else if want.isReference then fail (.localNotRef slot v)
    else fail (.localNot slot v want)

end Effect

/-- Locals after a value is stored: values that overlap it are lost. -/
def storeLocal (locals : List VType) (slot : Nat) (v : VType) : List VType :=
  let locals := locals ++ List.replicate (slot + v.words - locals.length) .top
  let locals := match slot with
    | 0 => locals
    | before + 1 =>
      if (locals[before]?).any VType.isWide then locals.set before .top else locals
  let locals := if v.isWide || (locals[slot]?).any VType.isWide then locals.set (slot + 1) .top
    else locals
  locals.set slot v

/-- All occurrences of a value replaced by another. -/
def Frame.replace (f : Frame) (old new : VType) : Frame :=
  let put (v : VType) : VType := if v = old then new else v
  ⟨f.locals.map put, f.stack.map put⟩

/-! ### Instructions -/

/-- What the effect of an instruction depends on besides the frame. -/
structure CodeContext where
  method : MethodCode
  ret : String
  /-- The instruction at an offset. -/
  at? : Nat → Option Insn

namespace Insn

def poolIndex (i : Insn) : UInt16 := UInt16.ofInt i.operand

/-- One more than the highest local an instruction names. -/
def localLimit (i : Insn) : Nat :=
  match i.op.action? with
  | some (.load k) | some (.loadAt k _) | some (.store k) | some (.storeAt k _) =>
    i.operand.toNat + k.width
  | some .increment => i.operand.toNat + 1
  | _ => 0

/-- Whether an instruction writes a local. -/
def isStore (i : Insn) : Bool :=
  match i.op.action? with
  | some (.store _) | some (.storeAt ..) | some .increment => true
  | _ => false

open Effect

def stackEffect (op : Opcode) : Action → Effect Unit
  | .pop => do let _ ← popWord op
  | .pop2 => do
    let v ← pop
    if !v.isWide then let _ ← popWord op
  | .dup => do
    let v ← popWord op
    pushAll [v, v]
  | .dupX1 => do
    let v1 ← popWord op
    let v2 ← popWord op
    pushAll [v1, v2, v1]
  | .dupX2 => do
    let v1 ← popWord op
    let v2 ← pop
    if v2.isWide then pushAll [v1, v2, v1]
    else
      let v3 ← popWord op
      pushAll [v1, v3, v2, v1]
  | .dup2 => do
    let v1 ← pop
    if v1.isWide then pushAll [v1, v1]
    else
      let v2 ← popWord op
      pushAll [v2, v1, v2, v1]
  | .dup2X1 => do
    let v1 ← pop
    if v1.isWide then
      let v2 ← popWord op
      pushAll [v1, v2, v1]
    else
      let v2 ← popWord op
      let v3 ← popWord op
      pushAll [v2, v1, v3, v2, v1]
  | .dup2X2 => do
    let v1 ← pop
    if v1.isWide then
      let v2 ← pop
      if v2.isWide then pushAll [v1, v2, v1]
      else
        let v3 ← popWord op
        pushAll [v1, v3, v2, v1]
    else
      let v2 ← popWord op
      let v3 ← pop
      if v3.isWide then pushAll [v2, v1, v3, v2, v1]
      else
        let v4 ← popWord op
        pushAll [v2, v1, v4, v3, v2, v1]
  | .swap => do
    let v1 ← popWord op
    let v2 ← popWord op
    pushAll [v1, v2]
  | _ => fail .unsupported

/-- Loads a constant; two-word constants have an instruction of their own. -/
def constantEffect (c : CodeContext) (i : Insn) (wide : Bool) : Effect Unit := do
  let e ← resolved (c.method.pool.entry i.poolIndex)
  match e, wide with
  | .int _, false => push .int
  | .float _, false => push .float
  | .str _, false => push (.ref "java/lang/String")
  | .cls _, false => push (.ref "java/lang/Class")
  | .long _, true => push .long
  | .double _, true => push .double
  | e, _ => fail (.constantTag e.tag i.op)

/-- Loads an element of an array. -/
def elementEffect (e : Elem) : Effect Unit := do
  let _ ← popAs .int
  let array ← popRef
  match e, array with
  | .ref, .null => push .null
  | .ref, .ref cls =>
    match cls.toList with
    | '[' :: rest => push (← sound (VType.ofDescriptor (String.ofList rest)))
    | _ => fail (.notArray array)
  | .ref, _ => fail (.notArray array)
  | e, _ => push (.ofKind e.kind)

def returnEffect (c : CodeContext) (op : Opcode) : Option Kind → Effect Unit
  | none => do
    if c.ret ≠ "V" then fail (.voidReturn c.ret)
    if c.method.isConstructor && (← get).locals.head? == some .uninitThis then fail .earlyReturn
  | some k => do
    if c.ret = "V" then fail .valueReturn
    let expect ← sound (VType.ofDescriptor c.ret)
    let got := VType.ofKind k
    if got.isReference != expect.isReference || (!expect.isReference && got != expect) then
      fail (.returnType op c.ret)
    let _ ← popAs expect

/-- Reads or writes a field, of the class or of an object. -/
def fieldEffect (c : CodeContext) (i : Insn) (isStatic write : Bool) : Effect Unit := do
  let m ← resolved (c.method.pool.memberAt i.poolIndex)
  let t ← sound (VType.ofDescriptor m.desc)
  if write then let _ ← popAs t
  if !isStatic then let _ ← popRef
  if !write then push t

/-- Runs a constructor on an uninitialized value. -/
def constructEffect (c : CodeContext) (op : Opcode) (recv : VType) (owner : String) :
    Effect Unit := do
  if op.action? ≠ some .invokeSpecial then fail .constructorCall
  match recv with
  | .uninitThis => modify (·.replace recv (.ref c.method.owner))
  | .uninit offset =>
    match c.at? offset with
    | some new =>
      if new.op.action? ≠ some .new then fail .noNew
      let name ← resolved (c.method.pool.classAt new.poolIndex)
      if name ≠ owner then fail (.otherConstructor owner name)
      modify (·.replace recv (.ref name))
    | none => fail .noNew
  | _ => fail (.initialized recv)

def invokeEffect (c : CodeContext) (i : Insn) (isStatic : Bool) : Effect Unit := do
  let m ← resolved (c.method.pool.memberAt i.poolIndex)
  match Descriptor.parse m.desc with
  | .error e => fail (.badDescriptor e)
  | .ok (params, ret) =>
    for p in params.reverse do
      let _ ← popAs (← sound (VType.ofDescriptor p))
    if !isStatic then
      let recv ← popRef
      if m.name = "<init>" then constructEffect c i.op recv m.owner
    if ret ≠ "V" then push (← sound (VType.ofDescriptor ret))

/-- The array classes of primitive element types by their codes. -/
def primitiveArray? : Int → Option String
  | 4 => some "[Z"
  | 5 => some "[C"
  | 6 => some "[F"
  | 7 => some "[D"
  | 8 => some "[B"
  | 9 => some "[S"
  | 10 => some "[I"
  | 11 => some "[J"
  | _ => none

/-- Two operands of one type that give a result. -/
def binaryEffect (t result : VType) : Effect Unit := do
  let _ ← popAs t
  let _ ← popAs t
  push result

def effect (c : CodeContext) (i : Insn) : Effect Unit := do
  let slot := i.operand.toNat
  let className : Effect String := resolved (c.method.pool.classAt i.poolIndex)
  match i.op.action? with
  | none => fail .unsupported
  | some a =>
    match a with
    | .nop | .goto | .gotoWide => return
    | .constNull => push .null
    | .constInt _ | .pushByte | .pushShort => push .int
    | .constLong _ => push .long
    | .constFloat _ => push .float
    | .constDouble _ => push .double
    | .ldc | .ldcWide => constantEffect c i false
    | .ldcTwo => constantEffect c i true
    | .load k | .loadAt k _ => push (← readLocal slot (.ofKind k))
    | .store k | .storeAt k _ =>
      let v ← popAs (.ofKind k)
      modify fun f => { f with locals := storeLocal f.locals slot v }
    | .increment => let _ ← readLocal slot .int
    | .arrayLoad e => elementEffect e
    | .arrayStore e =>
      let _ ← popAs (.ofKind e.kind)
      let _ ← popAs .int
      let _ ← popRef
    | .pop | .pop2 | .dup | .dupX1 | .dupX2 | .dup2 | .dup2X1 | .dup2X2 | .swap =>
      stackEffect i.op a
    | .arith _ n => binaryEffect (.ofKind n.kind) (.ofKind n.kind)
    | .neg n =>
      let _ ← popAs (.ofKind n.kind)
      push (.ofKind n.kind)
    | .bits op long =>
      let t : VType := if long then .long else .int
      let _ ← popAs (if op.isShift then .int else t)
      let _ ← popAs t
      push t
    | .convert conv =>
      let _ ← popAs (.ofKind conv.source)
      push (.ofKind conv.target)
    | .compareLong => binaryEffect .long .int
    | .compareFloat _ => binaryEffect .float .int
    | .compareDouble _ => binaryEffect .double .int
    | .ifZero _ | .tableSwitch | .lookupSwitch => let _ ← popAs .int
    | .ifInts _ =>
      let _ ← popAs .int
      let _ ← popAs .int
    | .ifRefs _ =>
      let _ ← popRef
      let _ ← popRef
    | .ifNull | .ifNonNull | .throwValue | .monitorEnter | .monitorExit => let _ ← popRef
    | .returnValue k => returnEffect c i.op (some k)
    | .returnVoid => returnEffect c i.op none
    | .getStatic => fieldEffect c i true false
    | .putStatic => fieldEffect c i true true
    | .getField => fieldEffect c i false false
    | .putField => fieldEffect c i false true
    | .invokeVirtual | .invokeSpecial | .invokeInterface => invokeEffect c i false
    | .invokeStatic => invokeEffect c i true
    | .new =>
      let _ ← className
      push (.uninit i.offset)
    | .newArray =>
      let _ ← popAs .int
      match primitiveArray? i.operand with
      | some desc => push (.ref desc)
      | none => fail (.arrayType i.operand)
    | .newRefArray =>
      let _ ← popAs .int
      push (.ref ("[" ++ classDescriptor (← className)))
    | .newMultiArray =>
      for _ in List.range i.operand2.toNat do
        let _ ← popAs .int
      push (.ref (← className))
    | .arrayLength | .instanceOf =>
      let _ ← popRef
      push .int
    | .checkCast =>
      let _ ← popRef
      push (.ref (← className))
    | .jsr | .ret | .invokeDynamic | .wide | .jsrWide => fail .unsupported

/-- The frame after an instruction. -/
def transfer (c : CodeContext) (i : Insn) (f : Frame) : Except Trouble Frame := do
  return (← (i.effect c).run f).2

end Insn

end Classwright
