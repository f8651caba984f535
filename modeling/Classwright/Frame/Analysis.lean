import Classwright.ClassFile.StackMap
import Classwright.Frame.Hierarchy
import Classwright.Frame.Transfer

/-!
Data-flow analysis of method code.

Frames flow from the entry along branches, fall-through and exception handlers and are merged where
paths meet, until nothing changes. The result has the frames that a stack map needs, the depth of
the operand stack and the number of locals. Code that no path reaches is overwritten by instructions
that do nothing, up to a last one that throws, and is taken out of the protected ranges.
-/

namespace Classwright

/-- A fault and the instruction it is found at. -/
structure FrameError where
  offset : Int
  op : Opcode
  fault : Fault
  deriving Repr

def FrameError.message (e : FrameError) : String :=
  s!"{e.fault.message} at offset {e.offset} ({e.op.name})"

/-- Why code is not accepted. `fuel` stands for an analysis that was not given enough steps. -/
inductive AnalysisError where
  | decode (e : DecodeError)
  | descriptor (e : DescriptorError)
  | frame (e : FrameError)
  | misuse (m : Misuse)
  | fuel
  deriving Repr

structure Analysis where
  maxStack : Nat
  maxLocals : Nat
  code : Bytes
  handlers : List ExceptionEntry
  initial : List VType
  frames : List MapFrame
  deriving Repr

/-! ### Merging -/

/-- What is known of a value that is either of two; none if nothing is. -/
def VType.merge (h : Hierarchy) (x y : VType) : Except Misuse (Option VType) :=
  if x = y then .ok (some x)
  else match x, y with
    | .null, .ref _ => .ok (some y)
    | .ref _, .null => .ok (some x)
    | .ref a, .ref b => do return some (.ref (← h.common a b))
    | _, _ => .ok none

/-- Merges stacks of one height, topmost first; `height` counts the values of a stack. -/
def mergeStack (h : Hierarchy) (source height : Nat) :
    List VType → List VType → Except Trouble (List VType)
  | x :: xs, y :: ys => do
    -- The lowest values come first.
    let below ← mergeStack h source (height - 1) xs ys
    match (← (x.merge h y).mapError .misuse) with
    | some v => return v :: below
    | none => throw (.fault (.slots (height - 1) y x source))
  | _, _ => return []

/-- Merges locals; those that disagree are not known. -/
def mergeLocals (h : Hierarchy) : List VType → List VType → Except Misuse (List VType)
  | [], _ => return []
  | x :: xs, ys => do
    let v := (← x.merge h (ys.headD .top)).getD .top
    return v :: (← mergeLocals h xs ys.tail)

/-- Widens a frame to cover one that comes from `source`. -/
def Frame.merge (h : Hierarchy) (old new : Frame) (source : Nat) : Except Trouble Frame := do
  if old.stack.length ≠ new.stack.length then
    throw (.fault (.heights new.stack.length old.stack.length source))
  let stack ← mergeStack h source old.stack.length old.stack new.stack
  let locals ← (mergeLocals h old.locals new.locals).mapError .misuse
  return ⟨locals, stack⟩

/-! ### The worklist -/

structure Body where
  method : MethodCode
  hierarchy : Hierarchy
  ret : String
  insns : Array Insn
  /-- Instruction numbers by offset. -/
  index : Array (Option Nat)

namespace Body

def number? (b : Body) (offset : Int) : Option Nat :=
  match offset with
  | .ofNat n => (b.index[n]?).join
  | .negSucc _ => none

def context (b : Body) : CodeContext :=
  ⟨b.method, b.ret, fun offset => (b.number? offset).bind (b.insns[·]?)⟩

def indexOf (size : Nat) (insns : Array Insn) : Array (Option Nat) :=
  (insns.zipIdx).foldl (fun index (insn, n) => index.setIfInBounds insn.offset (some n))
    (Array.replicate size none)

end Body

/-- The state of an analysis: the frame before each instruction that was reached, the instructions
to look at again, latest first, and those that need a frame of their own. -/
structure Progress where
  frames : Array (Option Frame)
  queued : Array Bool
  work : List Nat
  targets : Array Bool
  maxStack : Nat
  maxLocals : Nat

namespace Progress

def enqueue (p : Progress) (n : Nat) : Progress :=
  if p.queued.getD n false then p
  else { p with queued := p.queued.setIfInBounds n true, work := n :: p.work }

def note (p : Progress) (words : Nat) : Progress := { p with maxStack := max p.maxStack words }

end Progress

abbrev Analyze := StateT Progress (Except AnalysisError)

namespace Body

variable (b : Body)

def failAt {α : Type} (offset : Int) (op : Opcode) : Trouble → Analyze α
  | .fault f => throw (.frame ⟨offset, op, f⟩)
  | .misuse m => throw (.misuse m)

/-- Lets a frame flow from an instruction to a target. -/
def flow (source : Insn) (target : Int) (f : Frame) : Analyze Unit := do
  match b.number? target with
  | none => failAt source.offset source.op (.fault (.noTarget target))
  | some n =>
    match ((← get).frames[n]?).join with
    | none =>
      modify fun p => { p with frames := p.frames.setIfInBounds n (some f) }.enqueue n
    | some old =>
      match old.merge b.hierarchy f source.offset with
      | .error t => failAt target ((b.insns[n]?).map (·.op) |>.getD default) t
      | .ok new =>
        if new ≠ old then
          modify fun p => { p with frames := p.frames.setIfInBounds n (some new) }.enqueue n

/-- Marks the instruction at an offset as one that needs a frame, and flows to it. -/
def flowTo (source : Insn) (target : Int) (f : Frame) : Analyze Unit := do
  b.flow source target f
  match b.number? target with
  | some n => modify fun p => { p with targets := p.targets.setIfInBounds n true }
  | none => return

def fallThrough (n : Nat) (i : Insn) (f : Frame) : Analyze Unit :=
  match b.insns[n + 1]? with
  | some next => b.flow i next.offset f
  | none => failAt i.offset i.op (.fault .fallsOff)

def caught (i : Insn) (catchType : UInt16) : Analyze VType :=
  if catchType = 0 then return .ref throwableClass
  else match b.method.pool.classAt catchType with
    | .ok name => return .ref name
    | .error e => failAt i.offset i.op (.fault (.unresolved e))

/-- Flows to the handlers that cover an instruction, with the locals before it and, if it writes
one, those after it. -/
def flowToHandlers (i : Insn) (before after : List VType) : Analyze Unit := do
  for h in b.method.handlers do
    if h.start.toNat ≤ i.offset && i.offset < h.stop.toNat then
      let stack := [← b.caught i h.catchType]
      b.flowTo i h.handler.toNat ⟨before, stack⟩
      if i.isStore then b.flow i h.handler.toNat ⟨after, stack⟩

/-- Marks what follows an instruction that control does not fall through. -/
def markNext (n : Nat) : Analyze Unit :=
  modify fun p => { p with targets := p.targets.setIfInBounds (n + 1) true }

def flowOn (n : Nat) (i : Insn) (f : Frame) : Analyze Unit := do
  match i.op.action? with
  | some .tableSwitch | some .lookupSwitch =>
    for t in i.default :: i.targets do
      b.flowTo i t f
    markNext n
  | some a =>
    if a.isBranch || a = .gotoWide then
      b.flowTo i i.operand f
      if a.isConditional then b.fallThrough n i f else markNext n
    else if a.endsBlock then markNext n
    else b.fallThrough n i f
  | none => b.fallThrough n i f

/-- Looks at an instruction again. -/
def visit (n : Nat) : Analyze Unit := do
  match b.insns[n]?, ((← get).frames[n]?).join with
  | some i, some f =>
    modify (·.note f.words)
    match i.transfer b.context f with
    | .error t => failAt i.offset i.op t
    | .ok after =>
      modify fun p => { p.note after.words with maxLocals := max p.maxLocals i.localLimit }
      b.flowToHandlers i f.locals after.locals
      b.flowOn n i after
  | _, _ => return

/-- Looks at instructions until none is left. -/
def settle : Nat → Analyze Unit
  | 0 => do if !(← get).work.isEmpty then throw .fuel
  | fuel + 1 => do
    match (← get).work with
    | [] => return
    | n :: rest =>
      modify fun p => { p with work := rest, queued := p.queued.setIfInBounds n false }
      b.visit n
      settle fuel

/-! ### The result -/

/-- Locals as stack maps have them: one entry for each value, without trailing unknown ones. -/
def compress : List VType → List VType
  | [] => []
  | [v] => if v = .top then [] else [v]
  | v :: w :: rest =>
    if v.isWide then v :: compress rest
    else match compress (w :: rest) with
      | [] => if v = .top then [] else [v]
      | vs => v :: vs

/-- The frame a stack map needs at an instruction: for each that was marked, and at the start of
each run of unreachable code. `live` tells whether the instruction before was reached. -/
def mapFrames (targets : Array Bool) (live : Bool) :
    List (Nat × Insn × Option Frame) → List MapFrame
  | [] => []
  | (n, i, some f) :: rest =>
    let later := mapFrames targets true rest
    if targets.getD n false then ⟨i.offset, compress f.locals, f.stack.reverse⟩ :: later else later
  | (_, i, none) :: rest =>
    let later := mapFrames targets false rest
    if live then ⟨i.offset, [], [.ref throwableClass]⟩ :: later else later

/-- The bytes in place of an instruction that is not reached: the last of a run throws. -/
def deadBytes (last : Bool) (len : Nat) : Bytes :=
  if last then List.replicate (len - 1) Action.nop.opcode.byte ++ [Action.throwValue.opcode.byte]
  else List.replicate len Action.nop.opcode.byte

/-- The code with unreachable instructions overwritten. -/
def overwrite (code : Bytes) : List (Nat × Insn × Option Frame) → Bytes
  | [] => []
  | (_, i, some _) :: rest => code.take i.len ++ overwrite (code.drop i.len) rest
  | (_, i, none) :: rest =>
    let last := match rest with
      | (_, _, none) :: _ => false
      | _ => true
    deadBytes last i.len ++ overwrite (code.drop i.len) rest

/-- The runs of reachable instructions in a protected range, where `run` is the start of the current
one. -/
def liveRuns (h : ExceptionEntry) (run : Option Nat) :
    List (Nat × Insn × Option Frame) → List ExceptionEntry
  | [] =>
    match run with
    | some start => [{ h with start := UInt16.ofNat start }]
    | none => []
  | (_, i, f) :: rest =>
    let live := h.start.toNat ≤ i.offset && i.offset < h.stop.toNat && f.isSome
    match run, live with
    | none, true => liveRuns h (some i.offset) rest
    | some start, false =>
      { h with start := UInt16.ofNat start, stop := UInt16.ofNat i.offset } :: liveRuns h none rest
    | run, _ => liveRuns h run rest

/-- The instructions with their numbers and frames. -/
def traced (p : Progress) : List (Nat × Insn × Option Frame) :=
  b.insns.toList.zipIdx.map fun (i, n) => (n, i, (p.frames[n]?).join)

/-- What a finished analysis has found. -/
def analysis (initial : List VType) (p : Progress) : Analysis :=
  let traced := b.traced p
  let dead := traced.any fun (_, _, f) => f.isNone
  { maxStack := if dead then max p.maxStack 1 else p.maxStack
    maxLocals := p.maxLocals
    code := overwrite b.method.code traced
    handlers := b.method.handlers.flatMap fun h => liveRuns h none traced
    initial := compress initial
    frames := mapFrames p.targets true traced }

end Body

def MethodCode.initialLocals (m : MethodCode) (params : List String) :
    Except Misuse (List VType) := do
  let this : List VType :=
    if m.isStatic then []
    else if m.isConstructor && m.owner != objectClass then [.uninitThis]
    else [.ref m.owner]
  let params ← params.mapM fun p => do
    let v ← VType.ofDescriptor p
    return if v.isWide then [v, .top] else [v]
  return this ++ params.flatten

/-- Analyses a method in at most `fuel` steps. -/
def MethodCode.analyzeWithin (fuel : Nat) (m : MethodCode) (h : Hierarchy) :
    Except AnalysisError Analysis := do
  if m.code.isEmpty then throw (.frame ⟨0, Action.nop.opcode, .emptyBody⟩)
  let insns ← (Insn.decodeAll m.code).mapError .decode
  let insns := insns.toArray
  let (params, ret) ← (Descriptor.parse m.desc).mapError .descriptor
  let locals ← (m.initialLocals params).mapError .misuse
  let b : Body := ⟨m, h, ret, insns, Body.indexOf m.code.length insns⟩
  let start : Progress := {
    frames := (Array.replicate insns.size none).setIfInBounds 0 (some ⟨locals, []⟩)
    queued := (Array.replicate insns.size false).setIfInBounds 0 true
    work := [0]
    targets := Array.replicate insns.size false
    maxStack := 0
    maxLocals := locals.length }
  let (_, p) ← (b.settle fuel).run start
  return b.analysis locals p

/-- More steps than an analysis of real code takes. -/
def analysisFuel : Nat := 1152921504606846976

def MethodCode.analyze (m : MethodCode) (h : Hierarchy) : Except AnalysisError Analysis :=
  m.analyzeWithin analysisFuel h

end Classwright
