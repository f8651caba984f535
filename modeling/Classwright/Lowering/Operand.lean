import Classwright.Lowering.Coercion

/-!
Operands: what an expression can be lowered to.

The same expression is lowered to a value on the stack, to a branch on its truth, or to the target
of an assignment. An `Operand` has these three at hand, each ready to be emitted; the functions here
make the operands of an expression from those of its parts. Boolean operators are lowered as
branches, and their values are made from them.
-/

namespace Classwright.Lowering

/-- An expression and the ways to lower it. `assign` takes the assigned value, which it asks for at
the type of the target. -/
structure Operand where
  term : Expr
  value : Lower Unit
  jump : Bool → Label → Lower Unit
  assign : (Ty → Lower Unit) → Lower Unit

namespace Operand

def type (o : Operand) : Lower Ty := sound o.term.type

/-- The value, converted to a type. -/
def as (o : Operand) (ty : Ty) : Lower Unit := do
  o.value
  placed o.term.kindName do coerce (← o.type) ty

/-- The value, which must be a reference. -/
def ref (o : Operand) : Lower Unit := do
  let ty ← o.type
  if ty.isReference then o.value else mismatch (.notReference ty)

end Operand

/-! ### Making operands -/

/-- Branches if the boolean on the stack is as wanted. -/
def testInt (want : Bool) (target : Label) : Lower Unit :=
  branch (.ifZero (if want then .ne else .eq)) target

/-- Pushes a boolean that is known as a branch. -/
def materialize (jump : Bool → Label → Lower Unit) : Lower Unit := do
  let no ← newLabel
  let stop ← newLabel
  jump false no
  emit (.constInt ⟨2, by decide⟩)
  branch .goto stop
  join no
  emit (.constInt ⟨1, by decide⟩)
  join stop

def notAssignable (term : Expr) (_ : Ty → Lower Unit) : Lower Unit :=
  fail (.unsupported (.target term.kindName))

/-- Branches on a value. -/
def jumpOnValue (term : Expr) (value : Lower Unit) (want : Bool) (target : Label) : Lower Unit := do
  value
  coerce (← sound term.type) (.prim .boolean)
  testInt want target

/-- An operand that is known by its value. -/
def ofValue (term : Expr) (value : Lower Unit) : Operand where
  term
  value := placed term.kindName value
  jump want target := placed term.kindName (jumpOnValue term value want target)
  assign := notAssignable term

/-- An operand with a value that can be assigned to. -/
def ofTarget (term : Expr) (value : Lower Unit) (assign : (Ty → Lower Unit) → Lower Unit) :
    Operand :=
  { ofValue term value with assign }

/-- An operand that is known as a branch. -/
def ofJump (term : Expr) (jump : Bool → Label → Lower Unit) : Operand :=
  let jump want target := placed term.kindName (jump want target)
  { term, jump, value := placed term.kindName (materialize jump), assign := notAssignable term }

/-! ### Constants -/

/-- The operand code of a primitive array. -/
def arrayCode : Prim → UInt8
  | .void => 0
  | .boolean => 4
  | .char => 5
  | .float => 6
  | .double => 7
  | .byte => 8
  | .short => 9
  | .int => 10
  | .long => 11

/-- The class object of a type; that of a primitive is a field of its wrapper. -/
def pushClass (t : Ty) : Lower Unit := do
  match t.erase with
  | .prim p =>
    fieldInsn .getStatic (p.wrapper?.getD ⟨"java.lang.Void", .ordinary, false⟩) "TYPE"
      (.cls .classObject)
  | _ => loadConst (← classIndex t)

def pushConst (c : Constant) : Lower Unit := do
  match c.value with
  | .null => if c.ty.category = .ref then emit .constNull else mismatch (.nullOf c.ty)
  | .bool b => emit (.constInt (if b then ⟨2, by decide⟩ else ⟨1, by decide⟩))
  | .int v =>
    match c.ty.category with
    | .int =>
      if v.toInt < -2147483648 ∨ 2147483647 < v.toInt then mismatch (.overflow v.toInt c.ty)
      pushInt v.toInt
    | .long => pushLong v
    | .float => pushFloat (UInt32.ofNat (Number.ofInt Number.single v.toInt))
    | .double => pushDouble (UInt64.ofNat (Number.ofInt Number.double v.toInt))
    | _ => mismatch (.intConst c.ty)
  | .float bits =>
    match c.ty.category with
    | .float => pushFloat (Number.narrow bits)
    | .double => pushDouble bits
    | _ => mismatch (.floatConst c.ty)
  | .str s => loadConst (← pooling (Pool.str s))
  | .cls t => pushClass t
  | .foreign _ => fail (.unsupported .foreignConst)

/-- A constant as a condition is a jump or nothing. -/
def constJump (c : Constant) (want : Bool) (target : Label) : Lower Unit :=
  match c.value with
  | .bool b => if b = want then branch .goto target else pure ()
  | _ => mismatch (.condition c)

def constOperand (c : Constant) : Operand :=
  { ofValue (.const c) (pushConst c) with
    jump := fun want target => placed (Expr.const c).kindName (constJump c want target) }

/-! ### Variables -/

/-- A local variable or parameter that was found, or its absence. -/
def variableOperand (term : Expr) (find : Lower (Option Local)) (missing : Unresolved) (ty : Ty) :
    Operand :=
  let found : Lower Local := do
    match ← find with
    | some l => return l
    | none => fail (.unresolved missing)
  ofTarget term
    (do
      let l ← found
      load l
      coerce l.ty ty)
    fun value => do
      let l ← found
      value l.ty
      store l

def caughtValue (ty : Ty) : Lower Unit := do
  match (← get).catches with
  | l :: _ =>
    load l
    coerce l.ty ty
  | [] => fail (.unresolved .caught)

/-! ### Receivers and fields -/

def receiver : Lower Unit := do
  if (← read).method.isStatic then fail (.unresolved .receiver)
  emit (.loadAt .ref ⟨0, by decide⟩)

def thisOperand (c : ClassTy) : Operand := ofValue (.this c) receiver

/-- A receiver, or `this` as an instance of `owner` if there is none. -/
def orThis (recv : Operand) (owner : ClassTy) : Operand :=
  if recv.term.isAbsent then thisOperand owner else recv

/-- The declared type of a field. Fields of types outside the batch are taken as given. -/
def fieldType (owner : ClassTy) (name : String) (ty : Ty) (isStatic : Bool) : Lower Ty := do
  match (← read).unit.field? owner.name name with
  | none => return ty
  | some none => fail (.unresolved (.field owner.name name))
  | some (some f) =>
    let found := f.modifiers.has .static
    if found = isStatic then return f.ty else mismatch (.fieldStatic owner.name name found)

def fieldOperand (recv : Operand) (owner : ClassTy) (name : String) (ty : Ty) : Operand :=
  ofTarget (.field recv.term owner name ty)
    (do
      let t ← fieldType owner name ty false
      (orThis recv owner).ref
      fieldInsn .getField owner name t
      coerce t ty)
    fun value => do
      let t ← fieldType owner name ty false
      (orThis recv owner).ref
      value t
      fieldInsn .putField owner name t

def staticOperand (owner : ClassTy) (name : String) (ty : Ty) : Operand :=
  ofTarget (.staticField owner name ty)
    (do
      let t ← fieldType owner name ty true
      fieldInsn .getStatic owner name t
      coerce t ty)
    fun value => do
      let t ← fieldType owner name ty true
      value t
      fieldInsn .putStatic owner name t

/-! ### Calls -/

/-- Pushes arguments at the types of the parameters. -/
def pushArgs (args : List (Ty → Lower Unit)) (params : List Ty) : Lower Unit := do
  if args.length ≠ params.length then mismatch (.argumentCount args.length params.length)
  (args.zip params).forM fun (arg, ty) => arg ty

def callStatic (m : MethodRef) (args : List (Ty → Lower Unit)) : Lower Unit := do
  pushArgs args m.params
  invoke .invokeStatic m.owner.internal m.name m.descriptor ((← read).unit.isInterface m.owner)

/-- A call of the superclass's method. -/
def callSuper (m : MethodRef) (args : List (Ty → Lower Unit)) : Lower Unit := do
  let env ← read
  if env.method.isStatic then fail (.unresolved .super)
  emit (.loadAt .ref ⟨0, by decide⟩)
  pushArgs args m.params
  invoke .invokeSpecial m.owner.internal m.name m.descriptor (env.unit.isInterface m.owner)

/-- The class in which a virtual method is looked up: `clone` of an array is that of the array. -/
def virtualOwner (recv : Ty) (m : MethodRef) : String :=
  match recv.erase with
  | .array of dims =>
    if m.owner.name == ClassTy.object.name && m.name == "clone" then
      (Erased.array of dims).descriptor
    else m.owner.internal
  | _ => m.owner.internal

/-- The call itself, with an object of type `t` and arguments on the stack. Constructors are called
specially and methods of interfaces by their own instruction; the rest is virtual. -/
def callMethod (t : Ty) (m : MethodRef) : Lower Unit := do
  let isInterface := (← read).unit.isInterface m.owner
  if m.name == constructorName then
    invoke .invokeSpecial m.owner.internal m.name m.descriptor isInterface
  else if isInterface then
    let index ← pooling (Pool.method m.owner.internal m.name m.descriptor true)
    onCode (·.emitInterface index (UInt8.ofNat (1 + (m.params.map Ty.width).foldr (· + ·) 0)))
  else invokeVirtual (virtualOwner t m) m.name m.descriptor

def callOn (recv : Operand) (m : MethodRef) (args : List (Ty → Lower Unit)) : Lower Unit := do
  recv.value
  let t ← recv.type
  if t.isPrimitive then mismatch (.calledOn m.name t)
  pushArgs args m.params
  callMethod t m

def call (recv : Operand) (m : MethodRef) (args : List (Ty → Lower Unit)) : Lower Unit := do
  match recv.term with
  | .super _ => callSuper m args
  | _ => callOn (orThis recv (← read).unit.decl.ty) m args

def instantiate (c : ClassTy) (params : List Ty) (args : List (Ty → Lower Unit)) : Lower Unit := do
  if (← read).unit.isInterface c then mismatch (.interfaceInstance c)
  emitShort .new (← classIndex (.cls c))
  emit .dup
  pushArgs args params
  invoke .invokeSpecial c.internal constructorName (methodDescriptor params (.prim .void)) false

/-- A property is read and written through its accessors. -/
def propertyOperand (recv : Operand) (owner : ClassTy) (name : String) (ty : Ty) : Operand :=
  ofTarget (.property recv.term owner name ty)
    (do
      let getter := getterName ((← read).unit.kindOf owner) name
      call (orThis recv owner) ⟨owner, getter, [], ty⟩ [])
    fun value => placed "InvokeInstance" do
      call (orThis recv owner) ⟨owner, setterName name, [ty], .prim .void⟩ [value]

/-! ### Arrays -/

def newArray (of : Ty) (dims : Nat) : Lower Unit := do
  match Erased.element of.erase dims with
  | .prim p => emitByte .newArray (arrayCode p)
  | e => emitShort .newRefArray (← classIndex e.toTy)

/-- Stores elements, the first of them at `i`. -/
def pushElements (ty : Ty) (i : Nat) : List Operand → Lower Unit
  | [] => pure ()
  | e :: es => do
    emit .dup
    pushInt i
    e.as ty
    emit (.arrayStore (elemOf ty.erase))
    pushElements ty (i + 1) es

def arrayLit (of : Ty) (dims : Nat) (elements : List Operand) : Lower Unit := do
  pushInt elements.length
  newArray of dims
  pushElements (Ty.element of dims) 0 elements

/-- Pushes an array and an index, and tells the type of the element. -/
def pushIndexed (array index : Operand) : Lower Erased := do
  let t ← array.type
  match t.erase with
  | .array of dims =>
    array.value
    index.as (.prim .int)
    return Erased.element of dims
  | _ => mismatch (.indexing t)

def elementOperand (array index : Operand) : Operand :=
  ofTarget (.element array.term index.term)
    (do
      let e ← pushIndexed array index
      emit (.arrayLoad (elemOf e)))
    fun value => do
      let e ← pushIndexed array index
      value e.toTy
      emit (.arrayStore (elemOf e))

def lengthValue (array : Operand) : Lower Unit := do
  let t ← array.type
  match t.erase with
  | .array .. =>
    array.value
    emit .arrayLength
  | _ => mismatch (.lengthOf t)

/-! ### Arithmetic -/

def numOf : Category → Num
  | .long => .long
  | .float => .float
  | .double => .double
  | _ => .int

/-- The instruction of an operator on a kind of numbers. -/
def mathAction (op : MathOp) (n : Num) : Action :=
  match op with
  | .add => .arith .add n
  | .sub => .arith .sub n
  | .mul => .arith .mul n
  | .div => .arith .div n
  | .rem => .arith .rem n
  | .and => .bits .and (n == .long)
  | .or => .bits .or (n == .long)
  | .xor => .bits .xor (n == .long)
  | .shl => .bits .shl (n == .long)
  | .shr => .bits .shr (n == .long)
  | .ushr => .bits .ushr (n == .long)

/-- Pushes the distance of a shift as an `int`. -/
def shiftDistance (r : Operand) : Lower Unit := do
  let t ← r.type
  match (unboxed? t).map Prim.promote with
  | some .int => r.as (.prim .int)
  | some .long =>
    r.as (.prim .long)
    emit (.convert .l2i)
  | _ => mismatch (.shiftDistance t)

def mathValue (op : MathOp) (l r : Operand) : Lower Unit := do
  let p := (← sound (Expr.math op l.term r.term).type).unboxed
  if p = .boolean then
    l.as (.prim .boolean)
    r.as (.prim .boolean)
    emit (mathAction op .int)
  else
    if !p.isNumeric then mismatch (.operands (← l.type) op.name (← r.type))
    let cat := p.category
    if (op.isShift || op.isBitwise) && cat != .int && cat != .long then
      mismatch (.operand op.name p)
    l.as (.prim p)
    if op.isShift then shiftDistance r else r.as (.prim p)
    emit (mathAction op (numOf cat))

def negValue (v : Operand) : Lower Unit := do
  let t ← v.type
  let p := t.unboxed.promote
  if !p.isNumeric then mismatch (.negation t)
  v.as (.prim p)
  emit (.neg (numOf p.category))

/-! ### Branches -/

def condOf : CompareOp → Cond
  | .eq => .eq
  | .ne => .ne
  | .lt => .lt
  | .le => .le
  | .gt => .gt
  | .ge => .ge

def nullJump (v : Operand) (wantNull : Bool) (target : Label) : Lower Unit := do
  v.ref
  branch (if wantNull then .ifNull else .ifNonNull) target

/-- Branches on the identity of two references. -/
def identityJump (same : Bool) (l r : Operand) (target : Label) : Lower Unit := do
  if r.term.isNullConst then nullJump l same target
  else if l.term.isNullConst then nullJump r same target
  else
    l.value
    r.value
    branch (.ifRefs same) target

/-- The type at which two operands are compared by value. -/
def comparisonType (op : CompareOp) (a b : Ty) : Lower Prim :=
  match unboxed? a, unboxed? b with
  | some p, some q =>
    if p == .boolean || q == .boolean then
      if p == q && (op == .eq || op == .ne) then pure .boolean else mismatch (.operands a op.name b)
    else pure (p.promote2 q)
  | _, _ => mismatch (.operands a op.name b)

def isZeroConst : Expr → Bool
  | .const c => c.isZero
  | _ => false

/-- Branches if a comparison has the wanted outcome. Two references are compared by identity, all
else as numbers. An unordered comparison of floats is false, so that the instruction has to lean to
the side where the operator fails. -/
def compareJump (op : CompareOp) (l r : Operand) (want : Bool) (target : Label) : Lower Unit := do
  let a ← l.type
  let b ← r.type
  let outcome := if want then op else op.negate
  if a.isReference && b.isReference && (op == .eq || op == .ne) then
    identityJump (outcome == .eq) l r target
  else
    let p ← comparisonType op a b
    let greater := op == .lt || op == .le
    l.as (.prim p)
    if p.category == .int && isZeroConst r.term then branch (.ifZero (condOf outcome)) target
    else
      r.as (.prim p)
      match p.category with
      | .long =>
        emit .compareLong
        branch (.ifZero (condOf outcome)) target
      | .float =>
        emit (.compareFloat greater)
        branch (.ifZero (condOf outcome)) target
      | .double =>
        emit (.compareDouble greater)
        branch (.ifZero (condOf outcome)) target
      | _ => branch (.ifInts (condOf outcome)) target

/-- Branches if both or if either of two conditions decide so: `all` is true for a conjunction. -/
def bothJump (all : Bool) (l r : Operand) (want : Bool) (target : Label) : Lower Unit := do
  if want = all then
    let skip ← newLabel
    l.jump (!all) skip
    r.jump all target
    join skip
  else
    l.jump (!all) target
    r.jump (!all) target

def condValue (test yes no : Operand) (ty : Ty) : Lower Unit := do
  let other ← newLabel
  let stop ← newLabel
  test.jump false other
  yes.as ty
  branch .goto stop
  join other
  no.as ty
  join stop

/-! ### Equality and hashes -/

/-- Whether two operands are compared as values rather than objects. -/
def comparesValues (l r : Operand) : Lower Bool := do
  if (← l.type).isPrimitive then return true
  return (← r.type).isPrimitive

/-- The method of `java.util.Arrays` for an operation on arrays, by its names for flat and for
nested arrays. -/
def arrayMethod (of : Erased) (dims : Nat) (flat deep ret : String) (arity : Nat) :
    String × String :=
  let name := if 1 < dims then deep else flat
  let param := if dims ≤ 1 ∧ of.isPrimitive then (Erased.array of dims).descriptor
    else "[Ljava/lang/Object;"
  (name, "(" ++ String.join (List.replicate arity param) ++ ")" ++ ret)

/-- Pushes whether two references are equal; arrays are equal by their elements. -/
def equalObjects (l r : Operand) : Lower Unit := do
  l.ref
  r.ref
  match (← l.type).erase, (← r.type).erase with
  | .array of dims, .array of' dims' =>
    if (Erased.array of dims).descriptor == (Erased.array of' dims').descriptor then
      let (name, desc) := arrayMethod of dims "equals" "deepEquals" "Z" 2
      invokeStatic .arrays name desc
    else invokeStatic .objects "equals" "(Ljava/lang/Object;Ljava/lang/Object;)Z"
  | _, _ => invokeStatic .objects "equals" "(Ljava/lang/Object;Ljava/lang/Object;)Z"

def equalJump (l r : Operand) (want : Bool) (target : Label) : Lower Unit := do
  if ← comparesValues l r then compareJump .eq l r want target
  else
    equalObjects l r
    testInt want target

def equalOperand (l r : Operand) : Operand :=
  let byJump := ofJump (.same .byValue l.term r.term) (equalJump l r)
  { byJump with
    value := placed byJump.term.kindName do
      if ← comparesValues l r then materialize byJump.jump else equalObjects l r }

def differOperand (l r : Operand) : Operand :=
  ofJump (.differ .byValue l.term r.term) fun want target => (equalOperand l r).jump (!want) target

def hashValue (v : Operand) : Lower Unit := do
  match (← v.type).erase with
  | .prim p =>
    match p.wrapper? with
    | none => fail (.voidValue .value)
    | some w =>
      v.value
      invokeStatic w "hashCode" ("(" ++ p.descriptor ++ ")I")
  | .array of dims =>
    v.value
    let (name, desc) := arrayMethod of dims "hashCode" "deepHashCode" "I" 1
    invokeStatic .arrays name desc
  | .cls _ =>
    v.value
    invokeStatic .objects "hashCode" "(Ljava/lang/Object;)I"

def classValue (v : Operand) : Lower Unit := do
  v.ref
  invokeVirtual "java/lang/Object" "getClass" "()Ljava/lang/Class;"

def instanceValue (v : Operand) (ty : Ty) : Lower Unit := do
  v.ref
  if ty.isPrimitive then mismatch (.instanceOf ty)
  emitShort .instanceOf (← classIndex ty)

/-! ### Blocks with a value -/

/-- Runs a block whose returns give its value. -/
def yieldValue (ty : Ty) (body : Lower Unit) : Lower Unit := do
  let stop ← newLabel
  modify fun s => { s with yields := ⟨ty, stop⟩ :: s.yields }
  inScope body
  modify fun s => { s with yields := s.yields.drop 1 }
  if ← reachable then fail (.missingReturn .block)
  join stop

end Classwright.Lowering
