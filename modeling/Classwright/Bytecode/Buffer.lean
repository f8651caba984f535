import Classwright.Bytecode.Assembler

/-!
The buffer that code is written to.

Where an instruction names a label, a placeholder is written. The distance is patched in when the
label is resolved, at once if it is already.
-/

namespace Classwright

/-- A part of an instruction: bytes, or the distance to a label. -/
inductive Piece where
  | bytes (bs : Bytes)
  | distance (l : Label) (r : Pending)

/-- The parts of an item at an offset, in the order they are written. -/
def Item.pieces (offset : Nat) : Item → List Piece
  | op o => [.bytes [o.byte]]
  | byte o v => [.bytes [o.byte, v]]
  | short o v => [.bytes (o.byte :: Bytes.ofU16 v)]
  | interface index count =>
    [.bytes (Action.invokeInterface.opcode.byte :: (Bytes.ofU16 index ++ [count, 0]))]
  | wideLocal o slot => [.bytes (Action.wide.opcode.byte :: o.byte :: Bytes.ofU16 slot)]
  | jump o l => [.bytes [o.byte], .distance l ⟨offset, false⟩]
  | table low high default targets =>
    .bytes (Action.tableSwitch.opcode.byte :: List.replicate (padding offset) 0)
      :: .distance default ⟨offset, true⟩
      :: .bytes (Bytes.ofInt32 low.toInt ++ Bytes.ofInt32 high.toInt)
      :: targets.map (.distance · ⟨offset, true⟩)
  | lookup default cases =>
    .bytes (Action.lookupSwitch.opcode.byte :: List.replicate (padding offset) 0)
      :: .distance default ⟨offset, true⟩ :: .bytes (Bytes.ofInt32 cases.length)
      :: cases.flatMap fun x => [.bytes (Bytes.ofInt32 x.1.toInt), .distance x.2 ⟨offset, true⟩]

namespace Pending

/-- What stands for a distance that is not known. -/
def placeholder (r : Pending) : Bytes := if r.wide then [0, 0, 0, 0] else [0xFF, 0xFF]

/-- The bytes of the distance to a target; there are none if two cannot hold it. -/
def bytes? (r : Pending) (target : Nat) : Option Bytes :=
  let offset : Int := (target : Int) - r.insn
  if r.wide then some (Bytes.ofInt32 offset)
  else if -32768 ≤ offset ∧ offset ≤ 32767 then some (Bytes.ofInt16 offset)
  else none

end Pending

/-- Bytes, and for each label the distances that wait for it, with the places where they stand. -/
structure Buffer where
  bytes : Bytes := []
  refs : Label → List (Nat × Pending) := fun _ => []

namespace Buffer

/-- Writes the distance to a target over its placeholder. -/
def patch (target : Nat) (bs : Bytes) (ref : Nat × Pending) : Bytes :=
  match ref.2.bytes? target with
  | some d => bs.take ref.1 ++ d ++ bs.drop (ref.1 + d.length)
  | none => bs

/-- Writes a part of an instruction. -/
def write (position? : Label → Option Nat) (b : Buffer) : Piece → Buffer
  | .bytes bs => { b with bytes := b.bytes ++ bs }
  | .distance l r =>
    let ref := (b.bytes.length, r)
    let bs := b.bytes ++ r.placeholder
    match position? l with
    | some target => { b with bytes := patch target bs ref }
    | none => ⟨bs, fun k => if k = l then b.refs l ++ [ref] else b.refs k⟩

/-- Writes an instruction behind those that are there. -/
def push (position? : Label → Option Nat) (b : Buffer) (i : Item) : Buffer :=
  (i.pieces b.bytes.length).foldl (write position?) b

/-- Resolves a label to the end of the buffer. -/
def mark (b : Buffer) (l : Label) : Buffer :=
  ⟨(b.refs l).foldl (patch b.bytes.length) b.bytes, fun k => if k = l then [] else b.refs k⟩

end Buffer

end Classwright
