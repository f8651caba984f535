import Classwright.Machine.Native

/-!
Arithmetic, comparison, conversion and stack shuffling of values.

The values decide which arithmetic is done, and the instruction only chooses the operator. An
operator that the kind of the values does not have is exclusive or for integers and the remainder
for floats.
-/

namespace Classwright.Machine

/-! ### Two operands -/

/-- The operators of integers. -/
inductive WholeOp where
  | add | sub | mul | div | rem | and | or | xor
  deriving DecidableEq, Repr

/-- The operator that an instruction stands for on `int` or on `long` values. -/
def WholeOp.ofAction (long : Bool) : Action → WholeOp
  | .arith op n =>
    if n = (if long then .long else .int) then
      match op with
      | .add => add
      | .sub => sub
      | .mul => mul
      | .div => div
      | .rem => rem
    else xor
  | .bits .and l => if l = long then and else xor
  | .bits .or l => if l = long then or else xor
  | _ => xor

/-- Whether a zero divisor is an error. -/
def WholeOp.divides : WholeOp → Bool
  | div | rem => true
  | _ => false

def WholeOp.int (op : WholeOp) (a b : Int32) : Int32 :=
  match op with
  | add => a + b
  | sub => a - b
  | mul => a * b
  | div => a / b
  | rem => a % b
  | and => a &&& b
  | or => a ||| b
  | xor => a ^^^ b

def WholeOp.long (op : WholeOp) (a b : Int64) : Int64 :=
  match op with
  | add => a + b
  | sub => a - b
  | mul => a * b
  | div => a / b
  | rem => a % b
  | and => a &&& b
  | or => a ||| b
  | xor => a ^^^ b

/-- The operator that an instruction stands for on floats. -/
def floatOp : Action → Number.Arith
  | .arith op .float | .arith op .double =>
    match op with
    | .add => .add
    | .sub => .sub
    | .mul => .mul
    | .div => .div
    | .rem => .rem
  | _ => .rem

def floatArith (op : Action) (a b : UInt64) : UInt64 :=
  .ofNat ((floatOp op).apply Number.double a.toNat b.toNat)

def divisionByZero {α : Type} : Exec α := raise "java/lang/ArithmeticException" "/ by zero"

/-- Arithmetic of two values of one kind. Numbers of 32 bits are computed in 64 and rounded once
more. -/
def arith (op : Action) (a b : Value) : Exec Value := do
  match a with
  | .int a =>
    let b ← toInt b
    let op := WholeOp.ofAction false op
    if op.divides && b == 0 then divisionByZero
    return .int (op.int a b)
  | .long a =>
    let b ← toLong b
    let op := WholeOp.ofAction true op
    if op.divides && b == 0 then divisionByZero
    return .long (op.long a b)
  | .float a =>
    let b ← toFloat b
    return .float (Number.narrow (floatArith op (Number.widen a) (Number.widen b)))
  | .double a => return .double (floatArith op a (← toDouble b))
  | _ => badCode

/-- Shifts by the low bits of the distance. -/
def shift (op : BitOp) (long : Bool) (a distance : Value) : Exec Value := do
  let n ← toInt distance
  if long then
    let a ← toLong a
    let n : Int64 := n.toInt64 &&& 63
    return .long (match op with
      | .shl => a <<< n
      | .shr => a >>> n
      | _ => (a.toUInt64 >>> n.toUInt64).toInt64)
  else
    let a ← toInt a
    let n := n &&& 31
    return .int (match op with
      | .shl => a <<< n
      | .shr => a >>> n
      | _ => (a.toUInt32 >>> n.toUInt32).toInt32)

def negate (n : Num) (v : Value) : Exec Value := do
  match n with
  | .int => return .int (-(← toInt v))
  | .long => return .long (-(← toLong v))
  | .float => return .float ((← toFloat v) ^^^ 0x80000000)
  | .double => return .double ((← toDouble v) ^^^ 0x8000000000000000)

/-! ### Comparison -/

/-- -1, 0 or 1 by the order of two values; `unordered` for what is not a number. -/
def orderOf (less greater : Bool) : Value := .int (if less then -1 else if greater then 1 else 0)

def compareFloats (f : Number.Format) (nanIsGreater : Bool) (a b : Nat) : Value :=
  let x := Number.decode f a
  let y := Number.decode f b
  if x.isNaN || y.isNaN then .int (if nanIsGreater then 1 else -1) else orderOf (x.lt y) (y.lt x)

/-! ### Conversion -/

/-- The whole part of a number, held within bounds; 0 for what is not a number. -/
def wholeWithin (low high : Int) (f : Number.Format) (bits : Nat) : Int :=
  match Number.decode f bits with
  | .notANumber => 0
  | .infinite negative => if negative then low else high
  | d => max low (min high d.truncate)

def toInt32 (f : Number.Format) (bits : Nat) : Int32 :=
  .ofInt (wholeWithin (-2147483648) 2147483647 f bits)

def toInt64 (f : Number.Format) (bits : Nat) : Int64 :=
  .ofInt (wholeWithin (-9223372036854775808) 9223372036854775807 f bits)

def convert (c : Conversion) (v : Value) : Exec Value := do
  match c with
  | .i2l => return .long (← toInt v).toInt64
  | .i2f => return .float (.ofNat (Number.ofInt Number.single (← toInt v).toInt))
  | .i2d => return .double (.ofNat (Number.ofInt Number.double (← toInt v).toInt))
  | .l2i => return .int (← toLong v).toInt32
  | .l2f => return .float (.ofNat (Number.ofInt Number.single (← toLong v).toInt))
  | .l2d => return .double (.ofNat (Number.ofInt Number.double (← toLong v).toInt))
  | .f2i => return .int (toInt32 Number.single (← toFloat v).toNat)
  | .f2l => return .long (toInt64 Number.single (← toFloat v).toNat)
  | .f2d => return .double (Number.widen (← toFloat v))
  | .d2i => return .int (toInt32 Number.double (← toDouble v).toNat)
  | .d2l => return .long (toInt64 Number.double (← toDouble v).toNat)
  | .d2f => return .float (Number.narrow (← toDouble v))
  | .i2b => return .int (← toInt v).toInt8.toInt32
  | .i2c => return .int (.ofNat (← toInt v).toUInt32.toUInt16.toNat)
  | .i2s => return .int (← toInt v).toInt16.toInt32

/-! ### The stack -/

/-- What a stack instruction leaves of a stack, top first. A value of two words counts as a pair. -/
def shuffle? (op : Action) (stack : List Value) : Option (List Value) :=
  match op, stack with
  | .pop, _ :: s => some s
  | .pop2, a :: s => if a.isWide then some s else match s with
    | _ :: s => some s
    | [] => none
  | .dup, a :: s => some (a :: a :: s)
  | .dupX1, a :: b :: s => some (a :: b :: a :: s)
  | .dupX2, a :: b :: s => if b.isWide then some (a :: b :: a :: s) else match s with
    | c :: s => some (a :: b :: c :: a :: s)
    | [] => none
  | .dup2, a :: s => if a.isWide then some (a :: a :: s) else match s with
    | b :: s => some (a :: b :: a :: b :: s)
    | [] => none
  | .dup2X1, a :: b :: s => if a.isWide then some (a :: b :: a :: s) else match s with
    | c :: s => some (a :: b :: c :: a :: b :: s)
    | [] => none
  | .dup2X2, a :: b :: s =>
    if a.isWide && b.isWide then some (a :: b :: a :: s)
    else match s with
      | [] => none
      | c :: s =>
        if a.isWide then some (a :: b :: c :: a :: s)
        else if c.isWide then some (a :: b :: c :: a :: b :: s)
        else match s with
          | d :: s => some (a :: b :: c :: d :: a :: b :: s)
          | [] => none
  | .swap, a :: b :: s => some (b :: a :: s)
  | _, _ => none

end Classwright.Machine
