import Classwright.Bytecode.Opcode

/-!
Verification types: what is known of a value in a local or on the operand stack.
-/

namespace Classwright

/-- The type of a value as the verifier sees it. `uninit` is an object that was allocated by the
instruction at an offset and whose constructor has not run. -/
inductive VType where
  | top
  | int
  | float
  | double
  | long
  | null
  | uninitThis
  | ref (cls : String)
  | uninit (offset : Nat)
  deriving DecidableEq, Repr, Inhabited

namespace VType

def isWide : VType → Bool
  | long | double => true
  | _ => false

def words (v : VType) : Nat := if v.isWide then 2 else 1

/-- Whether the value is some reference, initialized or not. -/
def isReference : VType → Bool
  | null | uninitThis | ref _ | uninit _ => true
  | _ => false

def text : VType → String
  | top => "top"
  | int => "int"
  | float => "float"
  | double => "double"
  | long => "long"
  | null => "null"
  | uninitThis => "uninitializedThis"
  | ref c => c
  | uninit offset => s!"uninitialized({offset})"

/-- The short form: a word, or `L` and a class, or `U` and an offset. -/
def short : VType → String
  | ref c => "L" ++ c
  | uninit offset => s!"U{offset}"
  | uninitThis => "uninit_this"
  | v => v.text

/-- Reads the short form; offsets have sixteen bits. -/
def ofShort (s : String) : VType :=
  match [top, int, float, double, long, null, uninitThis].find? (·.short == s), s.toList with
  | some v, _ => v
  | none, 'U' :: digits => uninit ((String.ofList digits).toNat?.getD 0 % 65536)
  | none, cs => ref (String.ofList (cs.drop 1))

/-- What a value of a kind is at least; null stands for all references. -/
def ofKind : Kind → VType
  | .int => int
  | .long => long
  | .float => float
  | .double => double
  | .ref => null

/-- Whether a value will do where a value of the kind of `want` is expected. -/
def fits (v want : VType) : Bool :=
  if want.isReference then v.isReference else v == want

def tag : VType → UInt8
  | top => 0
  | int => 1
  | float => 2
  | double => 3
  | long => 4
  | null => 5
  | uninitThis => 6
  | ref _ => 7
  | uninit _ => 8

end VType

def objectClass : String := "java/lang/Object"

def throwableClass : String := "java/lang/Throwable"

/-- A text without its first and last character; nothing if it has only one. -/
def inner? (cs : List Char) : Option String :=
  match cs with
  | [] | [_] => none
  | _ :: rest => some (String.ofList rest.dropLast)

/-- The type of a value by its field descriptor; small integers are `int`. -/
def VType.ofDescriptor (desc : String) : Except Misuse VType :=
  match desc.toList with
  | [] => .error .broken
  | c :: cs =>
    match c with
    | 'Z' | 'B' | 'C' | 'S' | 'I' => .ok .int
    | 'J' => .ok .long
    | 'F' => .ok .float
    | 'D' => .ok .double
    | 'L' => do return .ref (← orBroken (inner? (c :: cs)))
    | _ => .ok (.ref desc)

/-- Whether a class is given by an array descriptor. -/
def isArrayClass (cls : String) : Bool := cls.toList.head? == some '['

/-- The field descriptor of an internal name or array descriptor. -/
def classDescriptor (cls : String) : String :=
  if isArrayClass cls then cls else "L" ++ cls ++ ";"

end Classwright
