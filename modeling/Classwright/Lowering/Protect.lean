import Classwright.Lowering.Operand

/-!
Returns, protected statements and locks.

Every way out of a protected statement runs its cleanup once: inlined where control leaves normally
or by a return, and in a handler that rethrows otherwise. Inlined cleanups are not protected by the
regions they leave.
-/

namespace Classwright.Lowering

/-! ### Regions of the state -/

def onRegions (f : Regions → Regions) : Lower Unit :=
  modify fun s => { s with regions := f s.regions }

def openRegion (cleanup : Option Cleanup) : Lower Nat := do
  let l ← here
  modifyGet fun s =>
    let (n, regions) := s.regions.begin l cleanup
    (n, { s with regions })

def pause (n : Nat) : Lower Unit := do
  let l ← here
  onRegions (·.pause n l)

def resume (n : Nat) : Lower Unit := do
  let l ← here
  onRegions (·.resume n l)

def closeRegion (n : Nat) : Lower Unit := do
  pause n
  onRegions (·.leave n)

def setStack (v : View) : Lower Unit := onRegions fun rs => { rs with stack := v }

/-- Whether a region protects anything. -/
def covers (n : Nat) : Lower Bool := do
  let s ← get
  return (s.regions.region n).covers s.code

/-- Protects the spans of a region. -/
def protectRegion (n : Nat) (handler : Label) (catchType : UInt16) : Lower Unit := do
  ((← get).regions.region n).spans.forM fun sp =>
    onCode (·.guard ⟨sp.start, sp.stop, handler, catchType⟩)

/-! ### Leaving -/

def release (monitor : Local) : Lower Unit := do
  load monitor
  emit .monitorExit

def cleanUp : Cleanup → Lower Unit
  | .run body => inScope fun env => env.again body
  | .release monitor => release monitor

/-- Runs the cleanups of regions, innermost first; each with only the regions around it open. -/
def unwind : List Nat → Lower Unit
  | [] => pure ()
  | n :: outer => do
    pause n
    if let some c := ((← get).regions.region n).cleanup then
      onRegions (·.fork outer.reverse)
      cleanUp c
    unwind outer

/-- Leaves all open regions by `exit`; they go on behind it. -/
def leave (exit : Lower Unit) : Lower Unit := do
  let regions := (← get).regions
  unwind regions.opened.reverse
  setStack regions.stack
  exit
  regions.opened.forM resume

/-- Returns from the method through the open cleanups, which a value outlives in a variable. Inside
a block with a value, a return gives that value. -/
def giveBack (value : Operand) : Lower Unit := do
  let s ← get
  let ret := (← read).method.returns
  match s.yields with
  | y :: _ =>
    if value.term.isAbsent then fail (.voidValue .emptyYield)
    value.as y.ty
    branch .goto y.stop
  | [] =>
    if value.term.isAbsent then
      if ret.isVoid then leave (emit .returnVoid) else mismatch (.noReturnValue ret)
    else
      if ret.isVoid then mismatch .voidReturnValue
      value.as ret
      if (← get).regions.needCleanup then
        let held ← temp "ret" ret
        store held
        leave do
          load held
          emitReturn ret
      else emitReturn ret

/-! ### Protected statements -/

/-- A cleanup as data, and what it emits. -/
structure Finish where
  region : Nat
  body : Lower Unit

/-- Completes a body or clause normally: the cleanup runs outside of its own protection, and control
goes behind the statement. -/
def complete (fin : Option Finish) (stop : Label) : Lower Unit := do
  if ← reachable then
    if let some f := fin then
      let stack := (← get).regions.stack
      pause f.region
      onRegions Regions.pop
      inScope f.body
      setStack stack
    if ← reachable then branch .goto stop
    if let some f := fin then resume f.region

/-- A clause of a protected statement and what its body emits. -/
structure Clause where
  exception : ClassTy
  name : String
  body : Lower Unit

/-- The handler of a clause, for the spans of `region`. -/
def handle (c : Clause) (region : Nat) (fin : Option Finish) (stop : Label) : Lower Unit := do
  if (← read).unit.isInterface c.exception then mismatch (.interfaceCatch c.exception)
  let handler ← newLabel
  protectRegion region handler (← classIndex (.cls c.exception))
  mark handler
  inScope do
    let ty := Ty.cls c.exception
    let caught ← if c.name.isEmpty then temp "exc" ty else declare c.name ty
    store caught
    modify fun s => { s with catches := caught :: s.catches }
    inScope c.body
    modify fun s => { s with catches := s.catches.drop 1 }
    complete fin stop

/-- The handler that runs the cleanup and throws again. -/
def rethrow (fin : Finish) : Lower Unit := do
  let handler ← newLabel
  protectRegion fin.region handler 0
  mark handler
  inScope do
    let caught ← temp "exc" (.cls .throwable)
    store caught
    inScope fin.body
    if ← reachable then
      load caught
      emit .throwValue

/-- A statement with clauses and a cleanup. Clauses protect the body, the cleanup protects the body
and the clauses. -/
def protect (body : Lower Unit) (clauses : List Clause) (cleanup : Option (Stmt × Lower Unit)) :
    Lower Unit := do
  if !(← get).yields.isEmpty then fail (.unsupported .protectInYield)
  if clauses.isEmpty && cleanup.isNone then inScope body
  else
    let stop ← newLabel
    let fin ← cleanup.mapM fun (s, emitted) => do
      return (⟨← openRegion (some (.run s)), emitted⟩ : Finish)
    let region ← openRegion none
    inScope body
    closeRegion region
    complete fin stop
    if ← covers region then clauses.forM fun c => handle c region fin stop
    if let some f := fin then
      closeRegion f.region
      if ← covers f.region then rethrow f
    join stop

/-- A statement that holds a monitor. -/
def lock (monitor : Operand) (body : Lower Unit) : Lower Unit := do
  if !(← get).yields.isEmpty then fail (.unsupported .lockInYield)
  inScope do
    monitor.ref
    let held ← temp "monitor" .object
    emit .dup
    store held
    emit .monitorEnter
    let region ← openRegion (some (.release held))
    inScope body
    closeRegion region
    let stop ← newLabel
    if ← reachable then
      release held
      branch .goto stop
    if ← covers region then
      let handler ← newLabel
      protectRegion region handler 0
      mark handler
      let caught ← temp "exc" (.cls .throwable)
      store caught
      release held
      load caught
      emit .throwValue
    join stop

end Classwright.Lowering
