import Classwright.Bytecode.Opcode
import Classwright.Bytes
import Classwright.Family

/-!
Assembling method code.

`Code` is a sequence of symbolic items whose branches name labels, together with the position each
label was given. The bytes are laid out once, when the code is finished: all labels are resolved by
then. A branch that cannot reach its label is found as soon as both ends are known; the first such
failure is kept and reported at the end.
-/

namespace Classwright

/-- A position in code that may not be known yet. -/
structure Label where
  id : Nat
  deriving DecidableEq, Repr, Inhabited

inductive Item where
  | op (o : Opcode)
  | byte (o : Opcode) (v : UInt8)
  | short (o : Opcode) (v : UInt16)
  | interface (index : UInt16) (count : UInt8)
  | wideLocal (o : Opcode) (slot : UInt16)
  | jump (o : Opcode) (target : Label)
  | table (low high : Int32) (default : Label) (targets : List Label)
  | lookup (default : Label) (cases : List (Int32 × Label))
  deriving Repr

/-- The padding of a jump table whose opcode is at `offset`. -/
def padding (offset : Nat) : Nat := 3 - offset % 4

def Item.size (offset : Nat) : Item → Nat
  | op _ => 1
  | byte .. => 2
  | short .. => 3
  | interface .. => 5
  | wideLocal .. => 4
  | jump .. => 3
  | table _ _ _ targets => 1 + padding offset + 12 + 4 * targets.length
  | lookup _ cases => 1 + padding offset + 8 + 8 * cases.length

/-- A branch at `insn` waiting for its label. -/
structure Pending where
  insn : Nat
  wide : Bool
  deriving DecidableEq, Repr

/-- What is known of a label. Pending branches are kept latest first. -/
structure LabelState where
  position : Option Nat := none
  pending : List Pending := []
  deriving Repr, Inhabited

/-- A protected range and its handler. Catch type 0 takes everything. -/
structure Guard where
  start : Label
  stop : Label
  handler : Label
  catchType : UInt16
  deriving Repr

/-- A row of a finished exception table. -/
structure ExceptionEntry where
  start : UInt16
  stop : UInt16
  handler : UInt16
  catchType : UInt16
  deriving DecidableEq, Repr, Inhabited

inductive CodeError where
  | distance (offset : Int) (insn : Nat)
  | localSlot (slot : Int)
  | size (n : Nat)
  | unmarkedBranch
  | unmarkedHandler
  deriving DecidableEq, Repr

namespace CodeError

/-- The family of errors that exceed the limits of the format. -/
def family? : CodeError → Option Family
  | distance .. | localSlot _ | size _ => some .codeTooLarge
  | _ => none

def message : CodeError → String
  | distance offset insn => s!"method code too large: branch distance {offset} at offset {insn}"
  | localSlot slot => s!"method code too large: local slot {slot}"
  | size n => s!"method code too large: {n} bytes"
  | unmarkedBranch => "branch to an unmarked label"
  | unmarkedHandler => "exception handler references an unmarked label"

end CodeError

/-- Code being assembled. Items and guards are kept latest first. -/
structure Code where
  items : List Item := []
  size : Nat := 0
  labels : Array LabelState := #[]
  guards : List Guard := []
  /-- Whether control can fall into the next instruction. -/
  reachable : Bool := true
  error : Option CodeError := none
  deriving Inhabited

namespace Code

def empty : Code := {}

/-! ### Labels -/

def newLabel (c : Code) : Label × Code :=
  (⟨c.labels.size⟩, { c with labels := c.labels.push {} })

def labelState (c : Code) (l : Label) : LabelState := c.labels.getD l.id {}

def position? (c : Code) (l : Label) : Option Nat := (c.labelState l).position

def fail (c : Code) (e : CodeError) : Code :=
  match c.error with
  | some _ => c
  | none => { c with error := some e }

/-- Checks that a branch reaches its target. -/
def checkReach (c : Code) (r : Pending) (target : Nat) : Code :=
  let offset : Int := (target : Int) - r.insn
  if r.wide || (-32768 ≤ offset && offset ≤ 32767) then c else c.fail (.distance offset r.insn)

/-- Resolves a label to the current position. -/
def mark (c : Code) (l : Label) : Except Misuse Code :=
  match c.labelState l with
  | ⟨some _, _⟩ => .error .labelResolved
  | ⟨none, pending⟩ =>
    let size := c.size
    let c := pending.reverse.foldl (fun c r => c.checkReach r size) c
    .ok { c with
      labels := c.labels.setIfInBounds l.id ⟨some size, []⟩
      reachable := true }

/-- Resolves a label to the current position; what follows stays unreachable unless control falls
into it or a branch to it was emitted. -/
def join (c : Code) (l : Label) : Except Misuse Code := do
  let reachable := c.reachable || !(c.labelState l).pending.isEmpty
  return { ← c.mark l with reachable }

/-- A label at the current position, which says nothing on how it is reached. -/
def here (c : Code) : Label × Code :=
  (⟨c.labels.size⟩, { c with labels := c.labels.push ⟨some c.size, []⟩ })

/-- Notes a branch at `insn` to a label. -/
def refer (c : Code) (l : Label) (r : Pending) : Code :=
  match c.position? l with
  | some target => c.checkReach r target
  | none =>
    { c with labels := c.labels.modify l.id fun s => { s with pending := r :: s.pending } }

/-! ### Emitting -/

def push (c : Code) (i : Item) : Code :=
  { c with items := i :: c.items, size := c.size + i.size c.size }

def stopIf (c : Code) (ends : Bool) : Code :=
  if ends then { c with reachable := false } else c

def emit (c : Code) (o : Opcode) : Code := (c.push (.op o)).stopIf o.endsBlock

def emitByte (c : Code) (o : Opcode) (v : UInt8) : Code := c.push (.byte o v)

def emitShort (c : Code) (o : Opcode) (v : UInt16) : Code := c.push (.short o v)

def emitInterface (c : Code) (index : UInt16) (count : UInt8) : Code :=
  c.push (.interface index count)

/-- The first short form of a local variable instruction, if the opcode is one in its general
form. -/
def shortForm? (o : Opcode) : Option Opcode :=
  match o.action? with
  | some (.load k) => some (Action.loadAt k 0).opcode
  | some (.store k) => some (Action.storeAt k 0).opcode
  | _ => none

/-- A load or store of a slot, in the shortest form. -/
def emitLocal (c : Code) (o : Opcode) (slot : Int) : Except Misuse Code :=
  match shortForm? o with
  | none => .error (.notLocalInsn o.name)
  | some short =>
    if slot < 4 then .ok (c.push (.op ⟨short.byte + UInt8.ofInt slot⟩))
    else if slot ≤ 255 then .ok (c.push (.byte o (UInt8.ofInt slot)))
    else if slot ≤ 65535 then .ok (c.push (.wideLocal o (UInt16.ofInt slot)))
    else .ok (c.fail (.localSlot slot))

def emitJump (c : Code) (o : Opcode) (l : Label) : Except Misuse Code :=
  if o.isBranch then
    let insn := c.size
    .ok (((c.push (.jump o l)).refer l ⟨insn, false⟩).stopIf o.endsBlock)
  else .error (.notBranch o.name)

/-- A dense jump table, with a target for each key from `low` to `high`. -/
def emitTable (c : Code) (low high : Int32) (default : Label) (targets : List Label) :
    Except Misuse Code :=
  if high.toInt - low.toInt + 1 = targets.length then
    let r : Pending := ⟨c.size, true⟩
    let c := (c.push (.table low high default targets)).refer default r
    .ok { targets.foldl (fun c t => c.refer t r) c with reachable := false }
  else .error .tableRange

/-- A sparse jump table; keys ascend. -/
def emitLookup (c : Code) (default : Label) (keys : List Int32) (targets : List Label) :
    Except Misuse Code :=
  if keys.length = targets.length then
    let r : Pending := ⟨c.size, true⟩
    let c := (c.push (.lookup default (keys.zip targets))).refer default r
    .ok { targets.foldl (fun c t => c.refer t r) c with reachable := false }
  else .error .lookupCounts

/-- Protects a range. Handlers are searched in the order they were added. -/
def guard (c : Code) (g : Guard) : Code := { c with guards := g :: c.guards }

/-! ### Finishing -/

def distance (c : Code) (insn : Nat) (l : Label) : Int := ((c.position? l).getD 0 : Int) - insn

def itemBytes (c : Code) (offset : Nat) : Item → Bytes
  | .op o => [o.byte]
  | .byte o v => [o.byte, v]
  | .short o v => o.byte :: Bytes.ofU16 v
  | .interface index count =>
    Action.invokeInterface.opcode.byte :: (Bytes.ofU16 index ++ [count, 0])
  | .wideLocal o slot => Action.wide.opcode.byte :: o.byte :: Bytes.ofU16 slot
  | .jump o l => o.byte :: Bytes.ofInt16 (c.distance offset l)
  | .table low high default targets =>
    Action.tableSwitch.opcode.byte :: (List.replicate (padding offset) 0
      ++ Bytes.ofInt32 (c.distance offset default) ++ Bytes.ofInt32 low.toInt
      ++ Bytes.ofInt32 high.toInt ++ targets.flatMap fun l => Bytes.ofInt32 (c.distance offset l))
  | .lookup default cases =>
    Action.lookupSwitch.opcode.byte :: (List.replicate (padding offset) 0
      ++ Bytes.ofInt32 (c.distance offset default) ++ Bytes.ofInt32 cases.length
      ++ cases.flatMap fun (k, l) => Bytes.ofInt32 k.toInt ++ Bytes.ofInt32 (c.distance offset l))

/-- The items with their offsets, latest first. -/
def placed (c : Code) : List (Nat × Item) :=
  (c.items.reverse.foldl (fun (offset, done) i => (offset + i.size offset, (offset, i) :: done))
    (0, [])).2

def bytes (c : Code) : Bytes :=
  c.placed.foldl (fun after (offset, i) => c.itemBytes offset i ++ after) []

/-- The exception table, without empty ranges; nothing if a label is not resolved. -/
def handlers? (c : Code) : Option (List ExceptionEntry) := do
  let rows ← c.guards.reverse.mapM fun g => do
    return (← c.position? g.start, ← c.position? g.stop, ← c.position? g.handler, g.catchType)
  return rows.filterMap fun (start, stop, handler, catchType) =>
    if start < stop then
      some ⟨UInt16.ofNat start, UInt16.ofNat stop, UInt16.ofNat handler, catchType⟩
    else none

def finish (c : Code) : Except CodeError (Bytes × List ExceptionEntry) :=
  match c.error with
  | some e => .error e
  | none =>
    if c.size = 0 ∨ 65535 < c.size then .error (.size c.size)
    else if c.labels.any fun s => s.position.isNone && !s.pending.isEmpty then
      .error .unmarkedBranch
    else match c.handlers? with
      | some hs => .ok (c.bytes, hs)
      | none => .error .unmarkedHandler

end Code

end Classwright
