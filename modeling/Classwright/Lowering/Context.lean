import Classwright.Decl.Basic
import Classwright.Lowering.Error
import Classwright.Lowering.Region

/-!
The state of a method while its body is lowered.

`ClassUnit` is what the methods of one declared type share, `State` is what changes from one
instruction to the next, and `Lower` are the computations between. Slots are given out by scope: a
scope that is closed returns its slots, and a name is bound once among the scopes and parameters
that are visible.
-/

namespace Classwright.Lowering

/-! ### What the methods of a type share -/

/-- A declared type among the others of its batch. The density is the bits of the least ratio of
keys to their range at which a switch becomes a table. -/
structure ClassUnit where
  decl : Contents
  types : List Contents := []
  /-- Fields that were added to the declaration. -/
  fields : List Field := []
  hierarchy : Hierarchy := {}
  density : UInt64 := 0

namespace ClassUnit

/-- Whether a name is that of the declaration itself. -/
def isOwn (u : ClassUnit) (name : String) : Bool := u.decl.name == name

/-- A type of the batch by its binary name. -/
def type? (u : ClassUnit) (name : String) : Option Contents :=
  if u.isOwn name then some u.decl else u.types.find? (·.name == name)

/-- A field by the name of its owner; the outer option is empty if the owner is not of the batch.
Fields of interfaces are static. -/
def field? (u : ClassUnit) (owner name : String) : Option (Option Field) :=
  (u.type? owner).map fun c =>
    match c.field? name with
    | some f =>
      some (if c.kind == .interface then { f with modifiers := .static :: f.modifiers } else f)
    | none => if u.isOwn owner then u.fields.find? (·.name == name) else none

/-- Whether a class is an interface: as the batch declares it, or else by its own kind or the
hierarchy. -/
def isInterface (u : ClassUnit) (c : ClassTy) : Bool :=
  match u.type? c.name with
  | some d => d.kind == .interface || d.kind == .annotationType
  | none => c.kind == .interface || c.kind == .annotationType || u.hierarchy.isInterface c.internal

/-- The kind of a class, as the batch declares it or else its own. -/
def kindOf (u : ClassUnit) (c : ClassTy) : ClassKind :=
  match u.type? c.name with
  | some d => d.kind
  | none => c.kind

/-- The bits of one half. -/
def defaultDensity : UInt64 := 0x3FE0000000000000

/-- The density in force: one that is not positive stands for one half. -/
def tableDensity (u : ClassUnit) : UInt64 :=
  let d := Number.decode Number.double u.density.toNat
  let zero := Number.decode Number.double 0
  if d.lt zero || d.eq zero then defaultDensity else u.density

end ClassUnit

/-! ### State -/

/-- A lexical scope: its variables and the first slot it owns. -/
structure Scope where
  vars : List Local := []
  base : Nat

/-- Where a block inside an expression leaves its value. -/
structure Yield where
  ty : Ty
  stop : Label

/-- What changes while a body is lowered. Scopes, yields and caught exceptions are innermost
first. -/
structure State where
  code : Code := {}
  pool : Pool := {}
  scopes : List Scope
  next : Nat
  maxLocals : Nat
  /-- Names that were made up so far. -/
  names : Nat := 0
  regions : Regions := {}
  yields : List Yield := []
  catches : List Local := []

/-- What stays while a body is lowered. `again` lowers a cleanup at a place outside of its own
statement. -/
structure Env where
  unit : ClassUnit
  method : Method
  params : List Local
  again : Stmt → StateT State (Except Stop) Unit

abbrev Lower := ReaderT Env (StateT State (Except Stop))

/-! ### Slots -/

/-- Gives parameters their slots, from `next` on. The result has the last parameter first. -/
def bindParams (next : Nat) (ps : List Param) : List Local × Nat :=
  ps.foldl (fun (done, next) p => (⟨p.name, next, p.ty⟩ :: done, next + p.ty.width)) ([], next)

/-- The parameters of a method, last first, and the first slot behind them. -/
def methodSlots (m : Method) : List Local × Nat :=
  bindParams (if m.isStatic then 0 else 1) m.params

/-- The state before a body. -/
def State.start (m : Method) (pool : Pool) : State :=
  let next := (methodSlots m).2
  { pool, scopes := [{ base := next }], next, maxLocals := next }

/-! ### Stopping -/

def fail {α : Type} (c : Cause) : Lower α := throw (.cause none c)

def mismatch {α : Type} (m : Mismatch) : Lower α := fail (.mismatch m)

/-- Gives a cause that has no place yet the place where it was found. -/
def placed {α : Type} (place : String) (x : Lower α) : Lower α := fun env s =>
  match x env s with
  | .error (.cause none c) => .error (.cause (some place) c)
  | r => r

def sound {α : Type} : Except Misuse α → Lower α
  | .ok a => pure a
  | .error m => throw (.misuse m)

/-- The answer of a search; none if the search does not end. -/
def decided {α : Type} : Option α → Lower α
  | some a => pure a
  | none => throw .diverges

/-! ### Scopes -/

def pushScope : Lower Unit := modify fun s => { s with scopes := { base := s.next } :: s.scopes }

/-- Closes the innermost scope, unless it is the method's own. -/
def popScope : Lower Unit := modify fun s =>
  match s.scopes with
  | top :: below :: rest => { s with scopes := below :: rest, next := top.base }
  | _ => s

/-- Runs in a scope of its own. -/
def inScope (x : Lower Unit) : Lower Unit := do
  pushScope
  x
  popScope

def param? (name : String) : Lower (Option Local) := do
  return (← read).params.find? (·.name == name)

/-- Resolves a name, innermost scope first, then the parameters. -/
def lookup? (name : String) : Lower (Option Local) := do
  match (← get).scopes.findSome? fun sc => sc.vars.find? (·.name == name) with
  | some l => return some l
  | none => param? name

/-- Binds a variable in a list of scopes, in the innermost. -/
def bindInner (l : Local) : List Scope → List Scope
  | [] => []
  | sc :: rest => { sc with vars := l :: sc.vars } :: rest

/-- Binds a name to the next free slots. A name that is visible may not be bound again. -/
def declare (name : String) (ty : Ty) : Lower Local := do
  if ty.isVoid then fail (.voidValue (.localVar name))
  if (← lookup? name).isSome then fail (.duplicateName name)
  let l : Local := ⟨name, (← get).next, ty⟩
  modify fun s =>
    let next := s.next + ty.width
    { s with scopes := bindInner l s.scopes, next, maxLocals := max s.maxLocals next }
  return l

/-- Makes up names until one is not visible. -/
def freshWithin (stem : String) : Nat → Lower String
  | 0 => throw .diverges
  | fuel + 1 => do
    let name := s!"${stem}{(← get).names}"
    modify fun s => { s with names := s.names + 1 }
    if (← lookup? name).isSome then freshWithin stem fuel else return name

/-- A name that no visible variable has. One more attempt than there are visible names finds it. -/
def freshName (stem : String) : Lower String := do
  let visible := ((← get).scopes.map (·.vars.length)).foldr (· + ·) 0 + (← read).params.length
  freshWithin stem (visible + 1)

/-- A variable with a name of its own. -/
def temp (stem : String) (ty : Ty) : Lower Local := do declare (← freshName stem) ty

/-! ### Code -/

def onCode (f : Code → Code) : Lower Unit := modify fun s => { s with code := f s.code }

def onCode? (f : Code → Except Misuse Code) : Lower Unit := fun _ s =>
  match f s.code with
  | .ok code => .ok ((), { s with code })
  | .error m => .error (.misuse m)

def withCode {α : Type} (f : Code → α × Code) : Lower α := modifyGet fun s =>
  let (a, code) := f s.code
  (a, { s with code })

def pooling {α : Type} (m : PoolM α) : Lower α := modifyGet fun s =>
  let (a, pool) := m.run s.pool
  (a, { s with pool })

def newLabel : Lower Label := withCode Code.newLabel
def here : Lower Label := withCode Code.here
def mark (l : Label) : Lower Unit := onCode? (·.mark l)
def join (l : Label) : Lower Unit := onCode? (·.join l)
def reachable : Lower Bool := do return (← get).code.reachable

def emit (a : Action) : Lower Unit := onCode (·.emit a.opcode)
def emitByte (a : Action) (v : UInt8) : Lower Unit := onCode (·.emitByte a.opcode v)
def emitShort (a : Action) (v : UInt16) : Lower Unit := onCode (·.emitShort a.opcode v)
def branch (a : Action) (l : Label) : Lower Unit := onCode? (·.emitJump a.opcode l)

/-! ### Instructions by type -/

/-- The kind of instructions for values of a category. -/
def kindOf : Category → Kind
  | .void | .int => .int
  | .long => .long
  | .float => .float
  | .double => .double
  | .ref => .ref

def load (l : Local) : Lower Unit :=
  onCode? (·.emitLocal (Action.load (kindOf l.ty.category)).opcode l.slot)

def store (l : Local) : Lower Unit :=
  onCode? (·.emitLocal (Action.store (kindOf l.ty.category)).opcode l.slot)

def emitReturn (ty : Ty) : Lower Unit :=
  emit (if ty.isVoid then .returnVoid else .returnValue (kindOf ty.category))

/-- The element instructions of an array. -/
def elemOf (e : Erased) : Elem :=
  match e with
  | .prim .boolean | .prim .byte => .byte
  | .prim .char => .char
  | .prim .short => .short
  | e => match e.category with
    | .void | .int => .int
    | .long => .long
    | .float => .float
    | .double => .double
    | .ref => .ref

/-- Drops a value. -/
def discard (ty : Ty) : Lower Unit :=
  match ty.width with
  | 1 => emit .pop
  | 2 => emit .pop2
  | _ => pure ()

/-- Loads a constant of the pool. -/
def loadConst (index : UInt16) : Lower Unit :=
  if index.toNat ≤ 255 then emitByte .ldc index.toUInt8 else emitShort .ldcWide index

/-- Pushes an `int` in the shortest form. -/
def pushInt (v : Int) : Lower Unit := do
  if h : -1 ≤ v ∧ v ≤ 5 then emit (.constInt ⟨(v + 1).toNat, by omega⟩)
  else if -128 ≤ v ∧ v ≤ 127 then emitByte .pushByte (UInt8.ofInt v)
  else if -32768 ≤ v ∧ v ≤ 32767 then emitShort .pushShort (UInt16.ofInt v)
  else loadConst (← pooling (Pool.int (Int32.ofInt v)))

def pushLong (v : Int64) : Lower Unit := do
  if v = 0 then emit (.constLong 0)
  else if v = 1 then emit (.constLong 1)
  else emitShort .ldcTwo (← pooling (Pool.long v))

def pushFloat (bits : UInt32) : Lower Unit := do
  if bits = 0 then emit (.constFloat 0)
  else if bits = 0x3F800000 then emit (.constFloat 1)
  else if bits = 0x40000000 then emit (.constFloat 2)
  else loadConst (← pooling (Pool.float bits))

def pushDouble (bits : UInt64) : Lower Unit := do
  if bits = 0 then emit (.constDouble 0)
  else if bits = 0x3FF0000000000000 then emit (.constDouble 1)
  else emitShort .ldcTwo (← pooling (Pool.double bits))

/-- The pool index of a reference type. -/
def classIndex (ty : Ty) : Lower UInt16 := do
  let name ← sound ty.internal
  pooling (Pool.cls name)

def checkCast (ty : Ty) : Lower Unit := do emitShort .checkCast (← classIndex ty)

def fieldInsn (a : Action) (owner : ClassTy) (name : String) (ty : Ty) : Lower Unit := do
  emitShort a (← pooling (Pool.field owner.internal name ty.descriptor))

def invoke (a : Action) (owner name desc : String) (isInterface : Bool) : Lower Unit := do
  emitShort a (← pooling (Pool.method owner name desc isInterface))

/-- Calls a static method of a class. -/
def invokeStatic (owner : ClassTy) (name desc : String) : Lower Unit :=
  invoke .invokeStatic owner.internal name desc false

def invokeVirtual (owner name desc : String) : Lower Unit :=
  invoke .invokeVirtual owner name desc false

end Classwright.Lowering
