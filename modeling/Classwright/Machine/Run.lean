import Classwright.Machine.Step

/-!
Running methods.

`invoke` runs a method to its end. Fuel bounds the number of instructions on each path of calls; a
run that ends without using it up is the same for any more of it.
-/

namespace Classwright.Machine

def maxDepth : Nat := 512

/-- Puts arguments into slots; a wide one takes two. -/
def placeArgs : List Value → Nat → Array Value → Option (Array Value)
  | [], _, locals => some locals
  | v :: vs, slot, locals =>
    if slot < locals.size then
      placeArgs vs (slot + if v.isWide then 2 else 1) (locals.setIfInBounds slot v)
    else none

/-- The handler of a method for an exception at an offset. -/
def findHandler (pool : Pool) (pc : Nat) (id : Nat) : List ExceptionEntry → Exec (Option Nat)
  | [] => return none
  | e :: es => do
    if pc < e.start.toNat || e.stop.toNat ≤ pc then findHandler pool pc id es
    else if e.catchType = 0 then return some e.handler.toNat
    else
      let cls ← pooled (pool.classAt e.catchType)
      if ← instanceOf (.obj id) cls then return some e.handler.toNat
      findHandler pool pc id es

def insnAt? (insns : Array (Option Insn)) (pc : Int) : Option Insn :=
  if pc < 0 then none else (insns[pc.toNat]?).bind id

/-- A crash within code is a fault of the code. -/
def contained {α : Type} : Except Stop α × State → Except Stop α × State
  | (.error (.fault .crash), s) => (.error (.fault .badCode), s)
  | r => r

/-- What one instruction leads to: the end of a run, or the next instruction. -/
inductive Round where
  | ended (r : Except Stop Value × State)
  | onward (f : Frame) (pc : Int) (s : State)

/-- Executes the instruction at an offset, and finds the handler if it throws. -/
def round (inv : Invoke) (handlers : List ExceptionEntry) (table : Array (Option Insn)) (f : Frame)
    (pc : Int) (s : State) : Round :=
  match insnAt? table pc with
  | none => .ended (.error (.fault .badCode), s)
  | some i =>
    match step inv i f s with
    | ((.ok (.done v), _), s) => .ended (.ok v, s)
    | ((.ok (.goto pc), f), s) => .onward f pc s
    | ((.error (.thrown id), f), s) =>
      match findHandler f.routine.pool i.offset id handlers s with
      | (.ok (some pc), s) => .onward { f with stack := [.obj id] } pc s
      | (.ok none, s) => .ended (.error (.thrown id), s)
      | (.error e, s) => .ended (.error e, s)
    | ((.error e, _), s) => .ended (.error e, s)

mutual

/-- Runs a method on arguments, at a depth of calls. -/
def invoke : Nat → Nat → Routine → List Value → Exec Value
  | 0, _, _, _ => throw .fuel
  | n + 1, depth, r, args =>
    match r.body with
    | .platform p => runPlatform (invoke n depth) n p args
    | .none => fault (.noMethod (r.text ++ " has no code"))
    | .code c insns =>
      if maxDepth ≤ depth then fault (.tooDeep ("calling " ++ r.text))
      else
        match placeArgs args 0 (Array.replicate (c.maxLocals.toNat + 1) .null) with
        | none => badCode
        | some locals => fun s => contained (loop n (depth + 1) c insns ⟨r, locals, []⟩ 0 s)

/-- Runs the code of a method from an offset on. -/
def loop : Nat → Nat → CodeAttribute → Array (Option Insn) → Frame → Int → State →
    Except Stop Value × State
  | 0, _, _, _, _, _, s => (.error .fuel, s)
  | n + 1, depth, c, insns, f, pc, s =>
    match round (invoke n depth) c.handlers insns f pc s with
    | .ended r => r
    | .onward f pc s => loop n depth c insns f pc s

end

/-- Fuel for all that ends in practice. -/
def ample : Nat := 1000000000000000000

def outermost : Invoke := invoke ample 0

end Classwright.Machine
