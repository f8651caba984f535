import Classwright.Bytecode.Opcode
import Classwright.Bytes

/-!
Decoding instructions.

An instruction is decoded from the suffix of the code that starts with it, together with its offset,
which branch distances and the padding of jump tables are relative to.
-/

namespace Classwright

/-- A decoded instruction. `operand` is a slot, a pool index, an immediate value, an array type or a
branch target; `operand2` an increment, an argument count or a number of dimensions. Jump tables
have `default`, `keys` and `targets`. -/
structure Insn where
  offset : Nat
  len : Nat
  op : Opcode
  operand : Int := 0
  operand2 : Int := 0
  wide : Bool := false
  default : Int := 0
  keys : List Int := []
  targets : List Int := []
  deriving DecidableEq, Repr, Inhabited

/-- Why bytes are no instruction. A jump table may be `cut` between its bounds. -/
inductive DecodeError where
  | outside (offset : Int) (size : Nat)
  | unknown (op : Opcode) (offset : Nat)
  | truncated (op : Opcode) (offset : Nat)
  | bounds (low high : Int) (offset : Nat)
  | negativeCount (offset : Nat)
  | cut
  deriving DecidableEq, Repr

def DecodeError.message? : DecodeError → Option String
  | outside offset size => some s!"offset {offset} outside code of {size} bytes"
  | unknown op offset =>
    some s!"unknown opcode 0x{Text.hexPadded true 2 op.byte.toNat} at offset {offset}"
  | truncated op offset => some s!"truncated {op.name} at offset {offset}"
  | bounds low high offset => some s!"tableswitch with low {low} > high {high} at offset {offset}"
  | negativeCount offset => some s!"negative lookupswitch pair count at offset {offset}"
  | cut => none

namespace Insn

def next (i : Insn) : Nat := i.offset + i.len

/-- The number of bytes from an opcode at `offset` to the first aligned one after it. -/
def tableStart (offset : Nat) : Nat := 4 - offset % 4

/-- Every second element, from the first. -/
def evens : List Int → List Int
  | a :: _ :: rest => a :: evens rest
  | [a] => [a]
  | [] => []

/-- Every second element, from the second. -/
def odds : List Int → List Int
  | _ :: b :: rest => b :: odds rest
  | _ => []

/-- Decodes a dense jump table from what follows its default. -/
def decodeTable (insn : Insn) (low : Int) (rest : Bytes) : Except DecodeError Insn := do
  let some (high, rest) := Bytes.takeInt32? rest | throw .cut
  if high < low then throw (.bounds low high insn.offset)
  let n := (high - low + 1).toNat
  let some (distances, _) := Bytes.takeInt32s? n rest | throw (.truncated insn.op insn.offset)
  return { insn with
    len := tableStart insn.offset + 12 + 4 * n
    keys := (List.range n).map fun i => low + (i : Nat)
    targets := distances.map (insn.offset + ·) }

/-- Decodes a sparse jump table from what follows its pair count. -/
def decodeLookup (insn : Insn) (count : Int) (rest : Bytes) : Except DecodeError Insn := do
  if count < 0 then throw (.negativeCount insn.offset)
  let n := count.toNat
  let some (pairs, _) := Bytes.takeInt32s? (2 * n) rest | throw (.truncated insn.op insn.offset)
  return { insn with
    len := tableStart insn.offset + 8 + 8 * n
    keys := evens pairs
    targets := (odds pairs).map (insn.offset + ·) }

/-- Decodes either jump table from the bytes after the opcode. -/
def decodeSwitch (dense : Bool) (insn : Insn) (operands : Bytes) : Except DecodeError Insn := do
  let some (distance, rest) := Bytes.takeInt32? (operands.drop (tableStart insn.offset - 1))
    | throw (.truncated insn.op insn.offset)
  let some (first, rest) := Bytes.takeInt32? rest | throw (.truncated insn.op insn.offset)
  let insn := { insn with default := insn.offset + distance }
  if dense then insn.decodeTable first rest else insn.decodeLookup first rest

/-- Decodes an instruction behind a `wide` byte: any opcode with a two-byte operand, and a two-byte
increment for `iinc`. -/
def decodeWide (insn : Insn) (operands : Bytes) : Except DecodeError Insn :=
  match operands with
  | op :: a :: b :: rest =>
    let op : Opcode := ⟨op⟩
    let insn := { insn with op, wide := true, operand := (Bytes.u16 a b).toNat, len := 4 }
    if op.action? = some .increment then
      match rest with
      | c :: d :: _ => .ok { insn with operand2 := Bytes.int16 c d, len := 6 }
      | _ => .error (.truncated op insn.offset)
    else .ok insn
  | _ => .error (.truncated insn.op insn.offset)

/-- Fills in the operands of an instruction of fixed length from the bytes after its opcode. -/
def withOperands (insn : Insn) (a : Action) (operands : Bytes) : Insn :=
  match a, operands with
  | .loadAt _ slot, _ | .storeAt _ slot, _ => { insn with operand := slot.val }
  | .pushByte, [b] => { insn with operand := b.toInt8.toInt }
  | .pushShort, [b, c] => { insn with operand := Bytes.int16 b c }
  | .increment, [b, c] => { insn with operand := b.toNat, operand2 := c.toInt8.toInt }
  | .gotoWide, [b, c, d, e] | .jsrWide, [b, c, d, e] =>
    { insn with operand := insn.offset + Bytes.int32 b c d e }
  | .invokeInterface, [b, c, d, _] | .newMultiArray, [b, c, d] =>
    { insn with operand := (Bytes.u16 b c).toNat, operand2 := d.toNat }
  | _, [b] => { insn with operand := b.toNat }
  | a, [b, c] =>
    if a.isBranch then { insn with operand := insn.offset + Bytes.int16 b c }
    else { insn with operand := (Bytes.u16 b c).toNat }
  | _, [b, c, _, _] => { insn with operand := (Bytes.u16 b c).toNat }
  | _, _ => insn

/-- Decodes the instruction at `offset` from the code that starts there. -/
def decode (offset : Nat) (code : Bytes) : Except DecodeError Insn := do
  let byte :: operands := code | throw (.outside offset offset)
  let op : Opcode := ⟨byte⟩
  let some action := op.action? | throw (.unknown op offset)
  let insn : Insn := { offset, len := 1, op }
  match action, action.operandLength with
  | .tableSwitch, _ => insn.decodeSwitch true operands
  | .lookupSwitch, _ => insn.decodeSwitch false operands
  | .wide, _ => insn.decodeWide operands
  | a, n =>
    let n := n.getD 0
    let some (operands, _) := Bytes.split? n operands | throw (.truncated op offset)
    return { insn with len := 1 + n }.withOperands a operands

/-- Decodes the instruction at an offset of a method's code. -/
def decodeAt (code : Bytes) (offset : Int) : Except DecodeError Insn :=
  match offset with
  | .ofNat n => if n < code.length then decode n (code.drop n) else .error (.outside n code.length)
  | .negSucc n => .error (.outside (.negSucc n) code.length)

/-- Decodes the code that starts at `offset`, one instruction after another, onto those before
it. -/
def decodeOnto (done : List Insn) (fuel offset : Nat) (code : Bytes) :
    Except DecodeError (List Insn) :=
  match fuel, code with
  | _, [] => .ok done.reverse
  | 0, _ => .ok done.reverse
  | fuel + 1, code => do
    let insn ← decode offset code
    decodeOnto (insn :: done) fuel insn.next (code.drop insn.len)

/-- All instructions of a method's code. Each takes a byte at least, so that its length is fuel
enough. -/
def decodeAll (code : Bytes) : Except DecodeError (List Insn) := decodeOnto [] code.length 0 code

end Insn

end Classwright
