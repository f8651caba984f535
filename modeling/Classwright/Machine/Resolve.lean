import Classwright.Machine.State

/-!
Finding methods and fields, and static initialization.

What runs methods is an argument here, so that these rules stand apart from how code is run.
-/

namespace Classwright.Machine

/-- How methods are run; the receiver is the first argument. -/
abbrev Invoke := Routine → List Value → Exec Value

/-! ### Methods -/

namespace State

/-- The method that a class itself declares. A loaded class hides a platform class of its name. -/
def declared? (s : State) (cls name desc : String) : Option Routine :=
  match s.class? cls with
  | some c => c.routines.lookup (name ++ desc)
  | none => (Platform.find? cls name desc).map (Routine.ofPlatform cls name desc)

def isLoaded (s : State) (cls : String) : Bool := (s.class? cls).isSome

/-- A declared method that has something to run. -/
def concrete? (s : State) (cls name desc : String) : Option Routine :=
  (s.declared? cls name desc).filter (!·.isAbstract)

/-- The first method found in some interfaces and the ones above them. -/
def defaultUpTo (s : State) (name desc : String) : Nat → List String → Option Routine
  | 0, _ => none
  | n + 1, is => is.findSome? fun i =>
    s.concrete? i name desc <|> s.defaultUpTo name desc n (s.interfacesOf i)

def static? (s : State) (cls name desc : String) : Option Routine :=
  (s.chain cls).findSome? fun c => s.declared? c name desc

/-- Constructors, and methods of a certain class. Constructors of loaded classes are not
inherited. -/
def special? (s : State) (cls name desc : String) : Option Routine :=
  let isConstructor := name == "<init>"
  s.declared? cls name desc <|>
    if s.isLoaded cls && isConstructor then none
    else ((s.chain cls).drop 1).takeWhile (fun c => !(s.isLoaded c && isConstructor))
      |>.findSome? fun c => s.concrete? c name desc

/-- Methods by the class of the receiver: those of classes first, then those of interfaces. -/
def virtual? (s : State) (cls name desc : String) : Option Routine :=
  (s.chain cls).findSome? (fun c => s.concrete? c name desc) <|>
    (s.chain cls).findSome? fun c => s.defaultUpTo name desc s.height (s.interfacesOf c)

end State

def methodText (cls name desc : String) : String := cls ++ "." ++ name ++ desc

def found (r : Option Routine) (what : String) : Exec Routine :=
  match r with
  | some r => return r
  | none => fault (.noMethod what)

def findStatic (cls name desc : String) : Exec Routine := do
  found ((← get).static? cls name desc) ("static " ++ methodText cls name desc)

def findSpecial (cls name desc : String) : Exec Routine := do
  found ((← get).special? cls name desc) (methodText cls name desc)

def findVirtual (cls name desc : String) : Exec Routine := do
  found ((← get).virtual? cls name desc) (methodText cls name desc)

/-! ### Static initialization -/

/-- Initializes a class, its superclass first. A class is initialized once, whether that succeeds or
not. -/
def initializeUpTo (invoke : Invoke) : Nat → String → Exec Unit
  | 0, _ => throw .fuel
  | n + 1, cls => do
    match (← get).class? cls with
    | none => return
    | some c =>
      if c.phase != .untouched then return
      modify fun s => s.changeClass cls fun c => { c with phase := .started }
      initializeUpTo invoke n c.super
      match c.routines.lookup "<clinit>()V" with
      | some r => let _ ← invoke r []
      | none => pure ()
      modify fun s => s.changeClass cls fun c => { c with phase := .done }

def initClass (invoke : Invoke) (cls : String) : Exec Unit := do
  initializeUpTo invoke ((← get).classes.length + 2) cls

/-! ### Static fields -/

namespace State

/-- The loaded class that declares a static field, among a class, its superclasses and their
interfaces. -/
def staticOwnerUpTo (s : State) (name : String) : Nat → String → Option String
  | 0, _ => none
  | n + 1, cls => (s.chain cls).findSome? fun c =>
    match s.class? c with
    | none => none
    | some lc =>
      if (lc.file.field? name).isSome then some lc.name
      else lc.interfaces.findSome? (s.staticOwnerUpTo name n)

def staticOwner? (s : State) (cls name : String) : Option String :=
  s.staticOwnerUpTo name s.height cls

end State

/-- The value of a field before one is stored. -/
def zeroOf (desc : String) : Exec Value :=
  match desc.toList with
  | c :: _ => return .zero c
  | [] => crash

def getStatic (invoke : Invoke) (cls name desc : String) : Exec Value := do
  match (← get).staticOwner? cls name with
  | some owner =>
    initClass invoke owner
    match ((← get).class? owner).bind (·.statics.lookup name) with
    | some v => return v
    | none => zeroOf desc
  | none =>
    match Platform.boxed.find? (Platform.wrapper · == cls), name == "TYPE" with
    | some p, true => classObject p.name
    | _, _ => fault (.noClass ("static field " ++ cls ++ "." ++ name))

def putStatic (invoke : Invoke) (cls name : String) (v : Value) : Exec Unit := do
  match (← get).staticOwner? cls name with
  | some owner =>
    initClass invoke owner
    modify fun s => s.changeClass owner fun c => { c with statics := put name v c.statics }
  | none => fault (.noClass ("static field " ++ cls ++ "." ++ name))

/-- Reads a static field of a class, which is initialized first. -/
def readStatic (invoke : Invoke) (cls name desc : String) : Exec Value := do
  initClass invoke cls
  getStatic invoke cls name desc

/-! ### Calls -/

/-- Calls a static method of a class by its internal name. -/
def callStatic (invoke : Invoke) (cls name desc : String) (args : List Value) : Exec Value := do
  let r ← findStatic cls name desc
  initClass invoke cls
  invoke r args

/-- Calls a method by the class of the receiver. -/
def callVirtual (invoke : Invoke) (recv : Value) (name desc : String) (args : List Value) :
    Exec Value := do
  if recv.isNull then raise "java/lang/NullPointerException" ("invoke " ++ name ++ " on null")
  let cls := (← get).classOf recv
  let r ← findVirtual cls name desc
  invoke r (recv :: args)

/-- Makes an object and runs a constructor on it. -/
def construct (invoke : Invoke) (cls desc : String) (args : List Value) : Exec Value := do
  initClass invoke cls
  let id ← newObject cls
  let r ← findSpecial cls "<init>" desc
  let _ ← invoke r (.obj id :: args)
  return .obj id

end Classwright.Machine
