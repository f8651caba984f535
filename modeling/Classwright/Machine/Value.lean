import Classwright.Number.Binary

/-!
Values of the machine.

Strings are values by their text; objects and arrays are references into the heap.
-/

namespace Classwright.Machine

/-- A value in a local, on the stack, in a field or in an array. Floats are bit patterns. -/
inductive Value where
  | null
  | int (v : Int32)
  | long (v : Int64)
  | float (bits : UInt32)
  | double (bits : UInt64)
  | str (s : String)
  | obj (id : Nat)
  | arr (id : Nat)
  deriving DecidableEq, Repr, Inhabited

namespace Value

def isWide : Value → Bool
  | long _ | double _ => true
  | _ => false

def isNull : Value → Bool
  | null => true
  | _ => false

def isArray : Value → Bool
  | arr _ => true
  | _ => false

def ofBool (b : Bool) : Value := int (if b then 1 else 0)

def isTrue : Value → Bool
  | int v => v != 0
  | _ => false

/-- Identity: references to one object, texts with the same characters, numbers that are equal. -/
def same : Value → Value → Bool
  | float a, float b =>
    (Number.decode Number.single a.toNat).eq (Number.decode Number.single b.toNat)
  | double a, double b =>
    (Number.decode Number.double a.toNat).eq (Number.decode Number.double b.toNat)
  | a, b => a == b

/-- The value that a field or element has before one is stored, by the letter of its descriptor. -/
def zero (letter : Char) : Value :=
  match letter with
  | 'Z' | 'B' | 'C' | 'S' | 'I' => int 0
  | 'J' => long 0
  | 'F' => float 0
  | 'D' => double 0
  | _ => null

end Value

/-- What a platform object holds besides its fields: a boxed value or the name of a class, the text
of a builder, or the name and position of an enumeration constant. -/
inductive Native where
  | value (v : Value)
  | builder (text : String)
  | constant (name : String) (ordinal : Int32)
  deriving DecidableEq, Repr

/-- An object. It has the fields that were stored. -/
structure Obj where
  cls : String
  fields : List (String × Value) := []
  native : Native := .value .null
  deriving DecidableEq, Repr

/-- An array with the descriptor of its type. -/
structure ArrayObj where
  desc : String
  data : Array Value
  deriving Repr

/-- Gives a key a value in a list of pairs. -/
def put {α : Type} (key : String) (v : α) : List (String × α) → List (String × α)
  | [] => [(key, v)]
  | (k, w) :: rest => if k = key then (k, v) :: rest else (k, w) :: put key v rest

end Classwright.Machine
