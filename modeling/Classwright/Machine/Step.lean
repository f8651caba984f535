import Classwright.Machine.Arith

/-!
One instruction.

`step` is what an instruction does to a frame and to the machine. It ends with where control goes,
or with the value that the method returns.
-/

namespace Classwright.Machine

/-- A method that is being run. The top of the stack comes first. -/
structure Frame where
  routine : Routine
  locals : Array Value
  stack : List Value := []

/-- What comes after an instruction. -/
inductive Next where
  | goto (pc : Int)
  | done (v : Value)

/-- Computations in a frame. One that stops leaves the frame as it is then. -/
abbrev Op := ExceptT Stop (StateT Frame (StateM State))

instance : MonadLift Exec Op := ⟨fun x f s =>
  let (r, s) := x s
  ((r, f), s)⟩

/-- The state that an instruction reads and changes is its frame. -/
instance : MonadState Frame Op where
  get := fun f s => ((.ok f, f), s)
  set f := fun _ s => ((.ok (), f), s)
  modifyGet change := fun f s =>
    let (a, f) := change f
    ((.ok a, f), s)

/-! ### The frame -/

def push (v : Value) : Op Unit := modify fun f => { f with stack := v :: f.stack }

def pop : Op Value := do
  match (← get).stack with
  | v :: rest =>
    modify fun f => { f with stack := rest }
    return v
  | [] => throw (.fault .crash)

def popInt : Op Int32 := do toInt (← pop)
def popLong : Op Int64 := do toLong (← pop)
def popFloat : Op UInt32 := do toFloat (← pop)
def popDouble : Op UInt64 := do toDouble (← pop)

/-- The slot that an operand names. -/
def slot (operand : Int) : Op Nat := do
  let i := operand.toNat
  if 0 ≤ operand ∧ i < (← get).locals.size then return i else throw (.fault .crash)

def load (operand : Int) : Op Value := do
  let i ← slot operand
  return (← get).locals.getD i .null

def store (operand : Int) (v : Value) : Op Unit := do
  let i ← slot operand
  modify fun f => { f with locals := f.locals.setIfInBounds i v }

/-- Pops values, the last of which was on top. -/
def popMany : Nat → List Value → Op (List Value)
  | 0, args => return args
  | n + 1, args => do popMany n ((← pop) :: args)

/-- Pops the arguments of a method. -/
def popArgs (desc : String) : Op (List Value) := do
  match Descriptor.parse desc with
  | .ok (params, _) => popMany params.length []
  | .error e => throw (.fault (.descriptor e))

def poolIndex (operand : Int) : UInt16 := .ofInt operand

def classAt (operand : Int) : Op String := do
  pooled ((← get).routine.pool.classAt (poolIndex operand))

def memberAt (operand : Int) : Op MemberRef := do
  pooled ((← get).routine.pool.memberAt (poolIndex operand))

/-! ### Constants -/

def constant (operand : Int) : Op Value := do
  let pool := (← get).routine.pool
  match ← pooled (pool.entry (poolIndex operand)) with
  | .int bits => return .int bits.toInt32
  | .float bits => return .float bits
  | .long bits => return .long bits.toInt64
  | .double bits => return .double bits
  | .str text => return .str (← pooled (pool.utf8At text))
  | .cls _ => classObject (← pooled (pool.classAt (poolIndex operand)))
  | _ => throw (.fault .badCode)

/-! ### Arrays -/

/-- The array that a value refers to. -/
def arrayOf (v : Value) : Exec Nat :=
  match v with
  | .arr id => return id
  | .null => raise "java/lang/NullPointerException" "array is null"
  | _ => badCode

/-- The position that an index names. -/
def position (a : ArrayObj) (i : Int32) : Exec Nat :=
  if 0 ≤ i.toInt ∧ i.toInt < a.data.size then return i.toInt.toNat
  else raise "java/lang/ArrayIndexOutOfBoundsException"
    s!"Index {i.toInt} out of bounds for length {a.data.size}"

def arrayLoad : Op Unit := do
  let i ← popInt
  let a ← getArray (← arrayOf (← pop))
  push (a.data.getD (← position a i) .null)

/-- A value as an array keeps it: cut to the size of small integers, and of the type of the elements
if it is an object. -/
def stored (e : Elem) (a : ArrayObj) (v : Value) : Exec Value := do
  match e with
  | .byte =>
    let i ← toInt v
    return .int (if a.desc.toList.drop 1 == ['Z'] then i &&& 1 else i.toInt8.toInt32)
  | .char => return .int (.ofNat (← toInt v).toUInt32.toUInt16.toNat)
  | .short => return .int (← toInt v).toInt16.toInt32
  | .ref =>
    if v.isNull then return v
    let s ← get
    let cls := s.classOf v
    let element ← unbroken (Hierarchy.descriptorClass (a.desc.toList.drop 1))
    if ← unbroken (s.isAssignable cls element) then return v
    raise "java/lang/ArrayStoreException" (dotted cls)
  | _ => return v

def changeElement (id i : Nat) (v : Value) : Exec Unit :=
  modify fun s => s.changeArray id fun a => { a with data := a.data.setIfInBounds i v }

def arrayStore (e : Elem) : Op Unit := do
  let v ← pop
  let i ← popInt
  let id ← arrayOf (← pop)
  let a ← getArray id
  let i ← position a i
  let v ← stored e a v
  changeElement id i v

/-- A new array of a type, filled with what its elements are at first. -/
def filled (desc : String) (n : Nat) : Exec Value := do
  match desc.toList with
  | _ :: c :: _ => newArray desc (Array.replicate n (.zero c))
  | _ => crash

/-- A length that an array may have. -/
def lengthOf (n : Int32) : Exec Nat :=
  if n < 0 then raise "java/lang/NegativeArraySizeException" (toString n.toInt)
  else return n.toInt.toNat

/-- The element type of a code in the instruction for arrays of primitives; other codes have
none. -/
def elementOfCode (code : Int) : String :=
  (["", "", "", "", "Z", "C", "F", "D", "B", "S", "I", "J"].drop code.toNat).headD ""

/-- New arrays within arrays. A negative length crashes the machine. -/
def filledMany : List Int → String → Exec Value
  | [], _ => crash
  | n :: ns, desc => do
    if n < 0 then crash
    else
      let v ← filled desc n.toNat
      match ns, v with
      | [], _ => return v
      | _, .arr id =>
        let inner := String.ofList (desc.toList.drop 1)
        let elements ← (List.replicate n.toNat ()).mapM fun _ => filledMany ns inner
        modify fun s => s.changeArray id fun a => { a with data := elements.toArray }
        return v
      | _, _ => return v

/-! ### Fields -/

/-- The object whose field is read or written. -/
def holder (what : String) (v : Value) : Exec Nat :=
  match v with
  | .obj id => return id
  | .null => raise "java/lang/NullPointerException" ("cannot " ++ what ++ " of null")
  | _ => badCode

def getField (ref : MemberRef) (v : Value) : Exec Value := do
  let o ← getObject (← holder ("read field " ++ ref.name) v)
  match o.fields.lookup ref.name with
  | some v => return v
  | none => zeroOf ref.desc

def putField (ref : MemberRef) (recv v : Value) : Exec Unit := do
  setField (← holder ("write field " ++ ref.name) recv) ref.name v

/-! ### Calls -/

/-- The ways to call a method. -/
inductive CallKind where
  | static | special | virtual
  deriving DecidableEq, Repr

def returnsValue (desc : String) : Bool := !desc.endsWith ")V"

/-- The method that is called on a receiver. -/
def dispatch (kind : CallKind) (recv : Value) (ref : MemberRef) : Exec Routine := do
  let cls := (← get).classOf recv
  if kind = .special then findSpecial ref.owner ref.name ref.desc
  else if ref.name = "clone" ∧ isArrayClass cls then
    return .ofPlatform cls "clone" ref.desc .cloneArray
  else findVirtual cls ref.name ref.desc

def call (invoke : Invoke) (kind : CallKind) (operand : Int) : Op Unit := do
  let ref ← memberAt operand
  let args ← popArgs ref.desc
  let v ← if kind = .static then do
      initClass invoke ref.owner
      invoke (← findStatic ref.owner ref.name ref.desc) args
    else do
      let recv ← pop
      if recv.isNull then
        raise (α := Unit) "java/lang/NullPointerException"
          ("cannot invoke " ++ dotted ref.owner ++ "." ++ ref.name ++ " on null")
      invoke (← dispatch kind recv ref) (recv :: args)
  if returnsValue ref.desc then push v

/-! ### Monitors -/

/-- The number of times that a monitor is held. -/
def State.held (s : State) (v : Value) : Nat :=
  ((s.monitors.find? fun (w, _) => w.same v).map (·.2)).getD 0

/-- Sets the number of times that a monitor is held. -/
def setHeld (v : Value) (n : Nat) : List (Value × Nat) → List (Value × Nat)
  | [] => [(v, n)]
  | (w, m) :: rest => if w.same v then (w, n) :: rest else (w, m) :: setHeld v n rest

def enter (v : Value) : Exec Unit := do
  if v.isNull then raise "java/lang/NullPointerException" "monitorenter on null"
  modify fun s => { s with monitors := setHeld v (s.held v + 1) s.monitors, enters := s.enters + 1 }

def exit (v : Value) : Exec Unit := do
  if v.isNull then raise "java/lang/NullPointerException" "monitorexit on null"
  if (← get).held v = 0 then raise "java/lang/IllegalMonitorStateException" ""
  modify fun s => { s with monitors := setHeld v (s.held v - 1) s.monitors, exits := s.exits + 1 }

/-- All that is held. -/
def State.heldMonitors (s : State) : Nat := (s.monitors.map (·.2)).foldr (· + ·) 0

/-! ### Objects -/

def throwValue {α : Type} (v : Value) : Exec α :=
  match v with
  | .obj id => throw (.thrown id)
  | _ => raise "java/lang/NullPointerException" "throw null"

def checkCast (v : Value) (cls : String) : Exec Unit := do
  if v.isNull || (← instanceOf v cls) then return
  let source := (← get).classOf v
  raise "java/lang/ClassCastException"
    ("class " ++ dotted source ++ " cannot be cast to class " ++ dotted cls)

/-! ### Instructions -/

/-- The target of a jump table for a key. -/
def switchTarget (i : Insn) (key : Int32) : Int :=
  (((i.keys.zip i.targets).find? fun (k, _) => k == key.toInt).map (·.2)).getD i.default

/-- What an instruction other than a jump or a return does. -/
def perform (invoke : Invoke) (i : Insn) (a : Action) : Op Unit := do
  match a with
  | .nop => return
  | .constNull => push .null
  | .constInt v => push (.int (.ofInt (v.val - 1)))
  | .constLong v => push (.long (.ofNat v.val))
  | .constFloat v => push (.float (.ofNat (Number.ofInt Number.single v.val)))
  | .constDouble v => push (.double (.ofNat (Number.ofInt Number.double v.val)))
  | .pushByte | .pushShort => push (.int (.ofInt i.operand))
  | .ldc | .ldcWide | .ldcTwo => push (← constant i.operand)
  | .load _ | .loadAt .. => push (← load i.operand)
  | .store _ | .storeAt .. => do
    let v ← pop
    store i.operand v
  | .arrayLoad _ => arrayLoad
  | .arrayStore e => arrayStore e
  | .pop | .pop2 | .dup | .dupX1 | .dupX2 | .dup2 | .dup2X1 | .dup2X2 | .swap =>
    match shuffle? a (← get).stack with
    | some stack => modify fun f => { f with stack }
    | none => throw (.fault .crash)
  | .arith .. | .bits .and _ | .bits .or _ | .bits .xor _ => do
    let y ← pop
    let x ← pop
    push (← arith a x y)
  | .bits op long => do
    let distance ← pop
    let x ← pop
    push (← shift op long x distance)
  | .neg n => push (← negate n (← pop))
  | .increment => do
    let v ← toInt (← load i.operand)
    store i.operand (.int (v + .ofInt i.operand2))
  | .convert c => push (← convert c (← pop))
  | .compareLong => do
    let y ← popLong
    let x ← popLong
    push (orderOf (x < y) (y < x))
  | .compareFloat greater => do
    let y ← popFloat
    let x ← popFloat
    push (compareFloats Number.single greater x.toNat y.toNat)
  | .compareDouble greater => do
    let y ← popDouble
    let x ← popDouble
    push (compareFloats Number.double greater x.toNat y.toNat)
  | .getStatic => do
    let ref ← memberAt i.operand
    push (← getStatic invoke ref.owner ref.name ref.desc)
  | .putStatic => do
    let ref ← memberAt i.operand
    putStatic invoke ref.owner ref.name (← pop)
  | .getField => do
    let ref ← memberAt i.operand
    push (← getField ref (← pop))
  | .putField => do
    let ref ← memberAt i.operand
    let v ← pop
    putField ref (← pop) v
  | .invokeVirtual | .invokeInterface => call invoke .virtual i.operand
  | .invokeSpecial => call invoke .special i.operand
  | .invokeStatic => call invoke .static i.operand
  | .new => do
    let cls ← classAt i.operand
    initClass invoke cls
    push (.obj (← newObject cls))
  | .newArray => do
    let n ← lengthOf (← popInt)
    push (← filled ("[" ++ elementOfCode i.operand) n)
  | .newRefArray => do
    let cls ← classAt i.operand
    let n ← lengthOf (← popInt)
    push (← filled ("[" ++ classDescriptor cls) n)
  | .newMultiArray => do
    let desc ← classAt i.operand
    let dims ← (← popMany i.operand2.toNat []).mapM fun v => return (← toInt v).toInt
    push (← filledMany dims desc)
  | .arrayLength => do
    let a ← getArray (← arrayOf (← pop))
    push (.int (.ofNat a.data.size))
  | .checkCast => do
    let cls ← classAt i.operand
    match (← get).stack with
    | v :: _ => checkCast v cls
    | [] => throw (.fault .crash)
  | .instanceOf => do
    let cls ← classAt i.operand
    push (.ofBool (← instanceOf (← pop) cls))
  | .monitorEnter => enter (← pop)
  | .monitorExit => exit (← pop)
  | _ => throw (.fault .badCode)

/-- Whether a branch is taken. -/
def taken (a : Action) : Op Bool := do
  match a with
  | .ifZero c => return c.holds (← popInt).toInt 0
  | .ifInts c => do
    let y ← popInt
    let x ← popInt
    return c.holds x.toInt y.toInt
  | .ifRefs same => do
    let y ← pop
    let x ← pop
    return x.same y == same
  | .ifNull => return (← pop).isNull
  | .ifNonNull => return !(← pop).isNull
  | _ => return true

/-- Runs one instruction. -/
def step (invoke : Invoke) (i : Insn) : Op Next := do
  match i.op.action? with
  | none => throw (.fault .badCode)
  | some a =>
    match a with
    | .returnValue _ => return .done (← pop)
    | .returnVoid => return .done .null
    | .gotoWide => return .goto i.operand
    | .tableSwitch | .lookupSwitch => return .goto (switchTarget i (← popInt))
    | .throwValue => throwValue (α := Next) (← pop)
    | a =>
      if a.isBranch then
        return .goto (if ← taken a then i.operand else i.next)
      else
        perform invoke i a
        return .goto i.next

end Classwright.Machine
