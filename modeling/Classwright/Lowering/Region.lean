import Classwright.Bytecode.Assembler
import Classwright.Term.Basic

/-!
Protected regions.

A region is the code that a handler protects. Cleanups that are inlined where control leaves a
region must not be protected by it, so a region is a list of spans rather than one range.

The open regions form a stack, innermost last. A stack is a view of some cells of a block, and views
of one block share its cells: opening a region through a view writes the cell behind its last, which
a longer view of the block sees. A view that reaches the end of its block moves to a larger one when
it grows.
-/

namespace Classwright.Lowering

structure Local where
  name : String
  slot : Nat
  ty : Ty
  deriving Repr

inductive Cleanup where
  | run (body : Stmt)
  | release (monitor : Local)

structure Span where
  start : Label
  stop : Label
  deriving Repr

/-- A region: its finished spans, the start of the span in progress, and its cleanup. -/
structure Region where
  spans : List Span := []
  since : Option Label := none
  cleanup : Option Cleanup := none
  deriving Inhabited

/-- Whether a span protects at least one instruction. -/
def Region.covers (r : Region) (c : Code) : Bool :=
  r.spans.any fun s => (c.position? s.start).getD 0 < (c.position? s.stop).getD 0

/-! ### Stacks that share cells -/

/-- Cells that views share, in blocks of a fixed capacity. A cell holds the number of a region. -/
structure Block where
  cells : List Nat := []
  capacity : Nat := 0
  deriving Repr, Inhabited

/-- The sizes in bytes that storage is given in, below whole pages. -/
def storageSizes : List Nat :=
  [0, 8, 16, 24, 32, 48, 64, 80, 96, 112, 128, 144, 160, 176, 192, 208, 224, 240, 256, 288, 320,
    352, 384, 416, 448, 480, 512, 576, 640, 704, 768, 896, 1024, 1152, 1280, 1408, 1536, 1792, 2048,
    2304, 2688, 3072, 3200, 3456, 4096, 4864, 5376, 6144, 6528, 6784, 6912, 8192, 9472, 9728, 10240,
    10880, 12288, 13568, 14336, 16384, 18432, 19072, 20480, 21760, 24576, 27264, 28672, 32768]

/-- The storage that is given when `n` bytes are asked for. Above 512 bytes a header takes 8 of
them, and what no size has room for is given in pages. -/
def storage (n : Nat) : Nat :=
  let header := if n ≤ 512 then 0 else 8
  match storageSizes.find? (n + header ≤ ·) with
  | some size => size - header
  | none => (n + 8191) / 8192 * 8192

/-- The capacity of the block that is given when `n` cells are asked for, of 8 bytes each. -/
def blockCapacity (n : Nat) : Nat := storage (8 * n) / 8

/-- How many cells are asked for in the place of a full block. -/
def Block.growth (b : Block) : Nat :=
  if b.capacity < 256 then max 1 (2 * b.capacity) else b.capacity + (b.capacity + 768) / 4

/-- Writes a cell; those behind it stay. -/
def Block.write (b : Block) (i : Nat) (n : Nat) : Block :=
  { b with cells := b.cells.take i ++ n :: b.cells.drop (i + 1) }

structure View where
  block : Nat := 0
  length : Nat := 0
  deriving DecidableEq, Repr, Inhabited

/-- All regions of a method, the blocks, and the stack of open regions. -/
structure Regions where
  all : Array Region := #[]
  blocks : Array Block := #[{}]
  stack : View := {}
  deriving Inhabited

namespace Regions

/-- The regions of a view, outermost first. -/
def members (rs : Regions) (v : View) : List Nat :=
  ((rs.blocks.getD v.block {}).cells).take v.length

def opened (rs : Regions) : List Nat := rs.members rs.stack

def region (rs : Regions) (n : Nat) : Region := rs.all.getD n {}

/-- A stack of its own with these regions. -/
def fork (rs : Regions) (ns : List Nat) : Regions :=
  { rs with
    blocks := rs.blocks.push ⟨ns, blockCapacity ns.length⟩
    stack := ⟨rs.blocks.size, ns.length⟩ }

def push (rs : Regions) (n : Nat) : Regions :=
  let v := rs.stack
  let b := rs.blocks.getD v.block {}
  if v.length < b.capacity then
    { rs with
      blocks := rs.blocks.modify v.block (·.write v.length n)
      stack := { v with length := v.length + 1 } }
  else
    { rs with
      blocks := rs.blocks.push ⟨rs.opened ++ [n], blockCapacity b.growth⟩
      stack := ⟨rs.blocks.size, v.length + 1⟩ }

/-- Takes the innermost region off the stack; its cell stays as it is. -/
def pop (rs : Regions) : Regions :=
  { rs with stack := { rs.stack with length := rs.stack.length - 1 } }

def begin (rs : Regions) (since : Label) (cleanup : Option Cleanup) : Nat × Regions :=
  let n := rs.all.size
  (n, { rs with all := rs.all.push { since := some since, cleanup } }.push n)

/-- Takes a region off the stack if it is the innermost. -/
def leave (rs : Regions) (n : Nat) : Regions :=
  if rs.opened.getLast? = some n then rs.pop else rs

/-- Ends the span in progress of a region, if there is one. -/
def pause (rs : Regions) (n : Nat) (stop : Label) : Regions :=
  { rs with all := rs.all.modify n fun r =>
      match r.since with
      | some start => { r with spans := r.spans ++ [⟨start, stop⟩], since := none }
      | none => r }

/-- Starts a span of a region, unless one is in progress. -/
def resume (rs : Regions) (n : Nat) (start : Label) : Regions :=
  { rs with all := rs.all.modify n fun r => { r with since := some (r.since.getD start) } }

def needCleanup (rs : Regions) : Bool := rs.opened.any fun n => (rs.region n).cleanup.isSome

end Regions

end Classwright.Lowering
