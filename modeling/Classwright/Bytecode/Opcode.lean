import Classwright.Misuse
import Classwright.Text.Hex

/-!
The instruction set.

An `Opcode` is a byte. Those that are defined stand for an `Action`, which says what the instruction
does by the kind of value it works on; `Action.opcode` and `Opcode.action?` go between the two, one
to one (`action?_opcode`), and mnemonics and operand lengths are read off the action.
-/

namespace Classwright

open List

/-- A byte in the place of an opcode. -/
structure Opcode where
  byte : UInt8
  deriving DecidableEq, Repr, Inhabited

/-! ### Actions -/

/-- Kinds of values in locals and on the operand stack. -/
inductive Kind where
  | int | long | float | double | ref
  deriving DecidableEq, Repr, Inhabited

namespace Kind

def all : List Kind := [int, long, float, double, ref]

def letter : Kind → String
  | int => "i"
  | long => "l"
  | float => "f"
  | double => "d"
  | ref => "a"

/-- Words a value of the kind takes. -/
def width : Kind → Nat
  | long | double => 2
  | _ => 1

def index : Kind → UInt8
  | int => 0
  | long => 1
  | float => 2
  | double => 3
  | ref => 4

end Kind

/-- The kinds with arithmetic. -/
inductive Num where
  | int | long | float | double
  deriving DecidableEq, Repr

namespace Num

def all : List Num := [int, long, float, double]

def kind : Num → Kind
  | int => .int
  | long => .long
  | float => .float
  | double => .double

end Num

/-- Kinds of array elements that have instructions of their own. -/
inductive Elem where
  | int | long | float | double | ref | byte | char | short
  deriving DecidableEq, Repr

namespace Elem

def all : List Elem := [int, long, float, double, ref, byte, char, short]

def letter : Elem → String
  | int => "i"
  | long => "l"
  | float => "f"
  | double => "d"
  | ref => "a"
  | byte => "b"
  | char => "c"
  | short => "s"

def index : Elem → UInt8
  | int => 0
  | long => 1
  | float => 2
  | double => 3
  | ref => 4
  | byte => 5
  | char => 6
  | short => 7

/-- The kind an element has on the stack. -/
def kind : Elem → Kind
  | int | byte | char | short => .int
  | long => .long
  | float => .float
  | double => .double
  | ref => .ref

end Elem

/-- Arithmetic of two operands of one kind. -/
inductive NumOp where
  | add | sub | mul | div | rem
  deriving DecidableEq, Repr

namespace NumOp

def all : List NumOp := [add, sub, mul, div, rem]

def name : NumOp → String
  | add => "add"
  | sub => "sub"
  | mul => "mul"
  | div => "div"
  | rem => "rem"

def index : NumOp → UInt8
  | add => 0
  | sub => 1
  | mul => 2
  | div => 3
  | rem => 4

end NumOp

/-- Shifts and bitwise operators, on `int` and `long` only. -/
inductive BitOp where
  | shl | shr | ushr | and | or | xor
  deriving DecidableEq, Repr

namespace BitOp

def all : List BitOp := [shl, shr, ushr, and, or, xor]

def name : BitOp → String
  | shl => "shl"
  | shr => "shr"
  | ushr => "ushr"
  | and => "and"
  | or => "or"
  | xor => "xor"

def index : BitOp → UInt8
  | shl => 0
  | shr => 1
  | ushr => 2
  | and => 3
  | or => 4
  | xor => 5

def isShift : BitOp → Bool
  | shl | shr | ushr => true
  | _ => false

end BitOp

/-- Conversions between numeric kinds; the last three cut an `int` to a smaller range. -/
inductive Conversion where
  | i2l | i2f | i2d | l2i | l2f | l2d | f2i | f2l | f2d | d2i | d2l | d2f | i2b | i2c | i2s
  deriving DecidableEq, Repr

namespace Conversion

def all : List Conversion :=
  [i2l, i2f, i2d, l2i, l2f, l2d, f2i, f2l, f2d, d2i, d2l, d2f, i2b, i2c, i2s]

def name : Conversion → String
  | i2l => "i2l"
  | i2f => "i2f"
  | i2d => "i2d"
  | l2i => "l2i"
  | l2f => "l2f"
  | l2d => "l2d"
  | f2i => "f2i"
  | f2l => "f2l"
  | f2d => "f2d"
  | d2i => "d2i"
  | d2l => "d2l"
  | d2f => "d2f"
  | i2b => "i2b"
  | i2c => "i2c"
  | i2s => "i2s"

def source : Conversion → Kind
  | i2l | i2f | i2d | i2b | i2c | i2s => .int
  | l2i | l2f | l2d => .long
  | f2i | f2l | f2d => .float
  | d2i | d2l | d2f => .double

def target : Conversion → Kind
  | l2i | f2i | d2i | i2b | i2c | i2s => .int
  | i2l | f2l | d2l => .long
  | i2f | l2f | d2f => .float
  | i2d | l2d | f2d => .double

end Conversion

/-- Conditions of branches, in pairs of opposites. -/
inductive Cond where
  | eq | ne | lt | ge | gt | le
  deriving DecidableEq, Repr

namespace Cond

def all : List Cond := [eq, ne, lt, ge, gt, le]

def name : Cond → String
  | eq => "eq"
  | ne => "ne"
  | lt => "lt"
  | ge => "ge"
  | gt => "gt"
  | le => "le"

def index : Cond → UInt8
  | eq => 0
  | ne => 1
  | lt => 2
  | ge => 3
  | gt => 4
  | le => 5

def negate : Cond → Cond
  | eq => ne
  | ne => eq
  | lt => ge
  | ge => lt
  | gt => le
  | le => gt

/-- Whether two numbers stand in the relation. -/
def holds (c : Cond) (a b : Int) : Bool :=
  match c with
  | eq => a == b
  | ne => a != b
  | lt => a < b
  | ge => b ≤ a
  | gt => b < a
  | le => a ≤ b

end Cond

/-- What an instruction does. -/
inductive Action where
  | nop
  | constNull
  | constInt (value : Fin 7)
  | constLong (value : Fin 2)
  | constFloat (value : Fin 3)
  | constDouble (value : Fin 2)
  | pushByte
  | pushShort
  | ldc
  | ldcWide
  | ldcTwo
  | load (k : Kind)
  | loadAt (k : Kind) (slot : Fin 4)
  | arrayLoad (e : Elem)
  | store (k : Kind)
  | storeAt (k : Kind) (slot : Fin 4)
  | arrayStore (e : Elem)
  | pop
  | pop2
  | dup
  | dupX1
  | dupX2
  | dup2
  | dup2X1
  | dup2X2
  | swap
  | arith (op : NumOp) (n : Num)
  | neg (n : Num)
  | bits (op : BitOp) (long : Bool)
  | increment
  | convert (c : Conversion)
  | compareLong
  | compareFloat (nanIsGreater : Bool)
  | compareDouble (nanIsGreater : Bool)
  | ifZero (c : Cond)
  | ifInts (c : Cond)
  | ifRefs (same : Bool)
  | goto
  | jsr
  | ret
  | tableSwitch
  | lookupSwitch
  | returnValue (k : Kind)
  | returnVoid
  | getStatic
  | putStatic
  | getField
  | putField
  | invokeVirtual
  | invokeSpecial
  | invokeStatic
  | invokeInterface
  | invokeDynamic
  | new
  | newArray
  | newRefArray
  | arrayLength
  | throwValue
  | checkCast
  | instanceOf
  | monitorEnter
  | monitorExit
  | wide
  | newMultiArray
  | ifNull
  | ifNonNull
  | gotoWide
  | jsrWide
  deriving DecidableEq, Repr

namespace Action

/-- All actions in the order of their opcodes. -/
def all : List Action :=
  [nop, constNull] ++ (List.finRange 7).map constInt ++ (List.finRange 2).map constLong
  ++ (List.finRange 3).map constFloat ++ (List.finRange 2).map constDouble
  ++ [pushByte, pushShort, ldc, ldcWide, ldcTwo]
  ++ Kind.all.map load ++ Kind.all.flatMap (fun k => (List.finRange 4).map (loadAt k))
  ++ Elem.all.map arrayLoad
  ++ Kind.all.map store ++ Kind.all.flatMap (fun k => (List.finRange 4).map (storeAt k))
  ++ Elem.all.map arrayStore
  ++ [pop, pop2, dup, dupX1, dupX2, dup2, dup2X1, dup2X2, swap]
  ++ NumOp.all.flatMap (fun op => Num.all.map (arith op)) ++ Num.all.map neg
  ++ BitOp.all.flatMap (fun op => [bits op false, bits op true]) ++ [increment]
  ++ Conversion.all.map convert
  ++ [compareLong, compareFloat false, compareFloat true, compareDouble false, compareDouble true]
  ++ Cond.all.map ifZero ++ Cond.all.map ifInts ++ [ifRefs true, ifRefs false]
  ++ [goto, jsr, ret, tableSwitch, lookupSwitch] ++ Kind.all.map returnValue ++ [returnVoid]
  ++ [getStatic, putStatic, getField, putField, invokeVirtual, invokeSpecial, invokeStatic,
      invokeInterface, invokeDynamic, new, newArray, newRefArray, arrayLength, throwValue,
      checkCast, instanceOf, monitorEnter, monitorExit, wide, newMultiArray, ifNull, ifNonNull,
      gotoWide, jsrWide]

/-- The opcode of an action. -/
def opcode : Action → Opcode
  | nop => ⟨0x00⟩
  | constNull => ⟨0x01⟩
  | constInt v => ⟨0x02 + UInt8.ofNat v⟩
  | constLong v => ⟨0x09 + UInt8.ofNat v⟩
  | constFloat v => ⟨0x0B + UInt8.ofNat v⟩
  | constDouble v => ⟨0x0E + UInt8.ofNat v⟩
  | pushByte => ⟨0x10⟩
  | pushShort => ⟨0x11⟩
  | ldc => ⟨0x12⟩
  | ldcWide => ⟨0x13⟩
  | ldcTwo => ⟨0x14⟩
  | load k => ⟨0x15 + k.index⟩
  | loadAt k slot => ⟨0x1A + 4 * k.index + UInt8.ofNat slot⟩
  | arrayLoad e => ⟨0x2E + e.index⟩
  | store k => ⟨0x36 + k.index⟩
  | storeAt k slot => ⟨0x3B + 4 * k.index + UInt8.ofNat slot⟩
  | arrayStore e => ⟨0x4F + e.index⟩
  | pop => ⟨0x57⟩
  | pop2 => ⟨0x58⟩
  | dup => ⟨0x59⟩
  | dupX1 => ⟨0x5A⟩
  | dupX2 => ⟨0x5B⟩
  | dup2 => ⟨0x5C⟩
  | dup2X1 => ⟨0x5D⟩
  | dup2X2 => ⟨0x5E⟩
  | swap => ⟨0x5F⟩
  | arith op n => ⟨0x60 + 4 * op.index + n.kind.index⟩
  | neg n => ⟨0x74 + n.kind.index⟩
  | bits op long => ⟨0x78 + 2 * op.index + (if long then 1 else 0)⟩
  | increment => ⟨0x84⟩
  | convert c => ⟨0x85 + UInt8.ofNat (Conversion.all.idxOf c)⟩
  | compareLong => ⟨0x94⟩
  | compareFloat g => ⟨if g then 0x96 else 0x95⟩
  | compareDouble g => ⟨if g then 0x98 else 0x97⟩
  | ifZero c => ⟨0x99 + c.index⟩
  | ifInts c => ⟨0x9F + c.index⟩
  | ifRefs same => ⟨if same then 0xA5 else 0xA6⟩
  | goto => ⟨0xA7⟩
  | jsr => ⟨0xA8⟩
  | ret => ⟨0xA9⟩
  | tableSwitch => ⟨0xAA⟩
  | lookupSwitch => ⟨0xAB⟩
  | returnValue k => ⟨0xAC + k.index⟩
  | returnVoid => ⟨0xB1⟩
  | getStatic => ⟨0xB2⟩
  | putStatic => ⟨0xB3⟩
  | getField => ⟨0xB4⟩
  | putField => ⟨0xB5⟩
  | invokeVirtual => ⟨0xB6⟩
  | invokeSpecial => ⟨0xB7⟩
  | invokeStatic => ⟨0xB8⟩
  | invokeInterface => ⟨0xB9⟩
  | invokeDynamic => ⟨0xBA⟩
  | new => ⟨0xBB⟩
  | newArray => ⟨0xBC⟩
  | newRefArray => ⟨0xBD⟩
  | arrayLength => ⟨0xBE⟩
  | throwValue => ⟨0xBF⟩
  | checkCast => ⟨0xC0⟩
  | instanceOf => ⟨0xC1⟩
  | monitorEnter => ⟨0xC2⟩
  | monitorExit => ⟨0xC3⟩
  | wide => ⟨0xC4⟩
  | newMultiArray => ⟨0xC5⟩
  | ifNull => ⟨0xC6⟩
  | ifNonNull => ⟨0xC7⟩
  | gotoWide => ⟨0xC8⟩
  | jsrWide => ⟨0xC9⟩

/-- The name of an action in listings. -/
def mnemonic : Action → String
  | nop => "nop"
  | constNull => "aconst_null"
  | constInt v => if v = 0 then "iconst_m1" else s!"iconst_{v.val - 1}"
  | constLong v => s!"lconst_{v.val}"
  | constFloat v => s!"fconst_{v.val}"
  | constDouble v => s!"dconst_{v.val}"
  | pushByte => "bipush"
  | pushShort => "sipush"
  | ldc => "ldc"
  | ldcWide => "ldc_w"
  | ldcTwo => "ldc2_w"
  | load k => k.letter ++ "load"
  | loadAt k slot => k.letter ++ s!"load_{slot.val}"
  | arrayLoad e => e.letter ++ "aload"
  | store k => k.letter ++ "store"
  | storeAt k slot => k.letter ++ s!"store_{slot.val}"
  | arrayStore e => e.letter ++ "astore"
  | pop => "pop"
  | pop2 => "pop2"
  | dup => "dup"
  | dupX1 => "dup_x1"
  | dupX2 => "dup_x2"
  | dup2 => "dup2"
  | dup2X1 => "dup2_x1"
  | dup2X2 => "dup2_x2"
  | swap => "swap"
  | arith op n => n.kind.letter ++ op.name
  | neg n => n.kind.letter ++ "neg"
  | bits op long => (if long then "l" else "i") ++ op.name
  | increment => "iinc"
  | convert c => c.name
  | compareLong => "lcmp"
  | compareFloat g => if g then "fcmpg" else "fcmpl"
  | compareDouble g => if g then "dcmpg" else "dcmpl"
  | ifZero c => "if" ++ c.name
  | ifInts c => "if_icmp" ++ c.name
  | ifRefs same => if same then "if_acmpeq" else "if_acmpne"
  | goto => "goto"
  | jsr => "jsr"
  | ret => "ret"
  | tableSwitch => "tableswitch"
  | lookupSwitch => "lookupswitch"
  | returnValue k => k.letter ++ "return"
  | returnVoid => "return"
  | getStatic => "getstatic"
  | putStatic => "putstatic"
  | getField => "getfield"
  | putField => "putfield"
  | invokeVirtual => "invokevirtual"
  | invokeSpecial => "invokespecial"
  | invokeStatic => "invokestatic"
  | invokeInterface => "invokeinterface"
  | invokeDynamic => "invokedynamic"
  | new => "new"
  | newArray => "newarray"
  | newRefArray => "anewarray"
  | arrayLength => "arraylength"
  | throwValue => "athrow"
  | checkCast => "checkcast"
  | instanceOf => "instanceof"
  | monitorEnter => "monitorenter"
  | monitorExit => "monitorexit"
  | wide => "wide"
  | newMultiArray => "multianewarray"
  | ifNull => "ifnull"
  | ifNonNull => "ifnonnull"
  | gotoWide => "goto_w"
  | jsrWide => "jsr_w"

/-- The bytes of operands after the opcode, unless their number varies. -/
def operandLength : Action → Option Nat
  | pushByte | ldc | load _ | store _ | ret | newArray => some 1
  | pushShort | ldcWide | ldcTwo | increment | ifZero _ | ifInts _ | ifRefs _ | goto | jsr
  | getStatic | putStatic | getField | putField | invokeVirtual | invokeSpecial | invokeStatic
  | new | newRefArray | checkCast | instanceOf | ifNull | ifNonNull => some 2
  | newMultiArray => some 3
  | invokeInterface | invokeDynamic | gotoWide | jsrWide => some 4
  | tableSwitch | lookupSwitch | wide => none
  | _ => some 0

/-- Branches with a two-byte distance, subroutine calls apart. -/
def isBranch : Action → Bool
  | ifZero _ | ifInts _ | ifRefs _ | goto | ifNull | ifNonNull => true
  | _ => false

def isConditional (a : Action) : Bool := a.isBranch && a != goto

def isReturn : Action → Bool
  | returnValue _ | returnVoid => true
  | _ => false

/-- Whether control never goes on to the next instruction. -/
def endsBlock : Action → Bool
  | goto | gotoWide | throwValue | tableSwitch | lookupSwitch | ret => true
  | a => a.isReturn

/-- The conditional branch taken exactly when this one is not. -/
def invert? : Action → Option Action
  | ifZero c => some (ifZero c.negate)
  | ifInts c => some (ifInts c.negate)
  | ifRefs same => some (ifRefs !same)
  | ifNull => some ifNonNull
  | ifNonNull => some ifNull
  | _ => none

/-- The form of a local variable instruction that names its slot. -/
def general : Action → Action
  | loadAt k _ => load k
  | storeAt k _ => store k
  | a => a

/-- The actions stand in the order of their opcodes. -/
theorem byte_all : all.map (·.opcode.byte.toNat) = range 202 := by decide +kernel

theorem mem_all (a : Action) : a ∈ all := by
  have hkind (k : Kind) : k ∈ Kind.all := by cases k <;> decide
  have helem (e : Elem) : e ∈ Elem.all := by cases e <;> decide
  have hnumOp (op : NumOp) : op ∈ NumOp.all := by cases op <;> decide
  have hnum (n : Num) : n ∈ Num.all := by cases n <;> decide
  have hbitOp (op : BitOp) : op ∈ BitOp.all := by cases op <;> decide
  have hconversion (c : Conversion) : c ∈ Conversion.all := by cases c <;> decide
  have hcond (c : Cond) : c ∈ Cond.all := by cases c <;> decide
  unfold all
  simp only [mem_append, mem_map, mem_flatMap, mem_cons, not_mem_nil,
    mem_finRange, true_and, or_false]
  cases a with
  | bits op long => cases long <;> grind
  | compareFloat g | compareDouble g | ifRefs g => cases g <;> grind
  | _ => grind

end Action

/-! ### Opcodes -/

namespace Opcode

/-- The actions by opcode. -/
def table : Array Action := Action.all.toArray

/-- What an opcode does, if it is defined. -/
def action? (op : Opcode) : Option Action := table[op.byte.toNat]?

variable {o : Opcode} {a : Action}

/-- An opcode does what it was made for. -/
theorem action?_opcode (a : Action) : a.opcode.action? = some a := by
  obtain ⟨n, hn, rfl⟩ := getElem_of_mem a.mem_all
  have hlen : Action.all.length = 202 := by simpa using congrArg length Action.byte_all
  have hbyte := congrArg (fun xs => xs[n]?) Action.byte_all
  simp only [getElem?_map, getElem?_eq_getElem hn, Option.map_some,
    getElem?_range (hlen ▸ hn)] at hbyte
  rw [action?, Option.some.inj hbyte, table, getElem?_toArray, getElem?_eq_getElem hn]

/-- What an opcode does tells which one it is. -/
theorem eq_opcode_of_action? (h : o.action? = some a) : o = a.opcode := by
  rw [action?, table, getElem?_toArray] at h
  have hbyte := congrArg (fun xs => xs[o.byte.toNat]?) Action.byte_all
  simp only [getElem?_map, h, Option.map_some] at hbyte
  obtain ⟨_, hget⟩ := List.getElem?_eq_some_iff.1 hbyte.symm
  rw [getElem_range] at hget
  cases o
  exact congrArg Opcode.mk (UInt8.toNat_inj.1 hget)

-- The two lemmas say all about it, and its table must not be searched while terms are compared.
attribute [irreducible] action?

def isValid (op : Opcode) : Bool := op.action?.isSome

/-- The mnemonic, or the byte for an opcode without one. -/
def name (op : Opcode) : String :=
  match op.action? with
  | some a => a.mnemonic
  | none => "unknown(0x" ++ Text.hexPadded true 2 op.byte.toNat ++ ")"

/-- The bytes of operands, if their number is fixed; none for an undefined opcode. -/
def operandLength (op : Opcode) : Option Nat :=
  match op.action? with
  | some a => a.operandLength
  | none => some 0

def isBranch (op : Opcode) : Bool := op.action?.any Action.isBranch

def isConditional (op : Opcode) : Bool := op.action?.any Action.isConditional

def isReturn (op : Opcode) : Bool := op.action?.any Action.isReturn

def endsBlock (op : Opcode) : Bool := op.action?.any Action.endsBlock

/-- The general form of a local variable instruction; other opcodes stand for themselves. -/
def general (op : Opcode) : Opcode :=
  match op.action? with
  | some a => a.general.opcode
  | none => op

/-- The general form of an opcode is that of what it does. -/
theorem general_of_action? (h : o.action? = some a) : o.general = a.general.opcode := by
  unfold general
  generalize o.action? = x at h ⊢
  subst h
  rfl

/-- The branch with the opposite condition. -/
def invert (op : Opcode) : Except Misuse Opcode :=
  match op.action?.bind Action.invert? with
  | some a => .ok a.opcode
  | none => .error (.notConditional op.name)

/-- All defined opcodes. -/
def all : List Opcode := Action.all.map Action.opcode

def ofName? (name : String) : Option Opcode :=
  (Action.all.find? (·.mnemonic == name)).map Action.opcode

end Opcode

end Classwright
