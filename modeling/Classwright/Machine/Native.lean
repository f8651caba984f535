import Classwright.Machine.Resolve
import Classwright.Number.Decimal

/-!
What platform methods do.

A platform method takes its arguments as they come. Where one is missing or of another kind than the
method needs, the machine crashes.
-/

namespace Classwright.Machine

/-! ### Arguments -/

def arg (args : List Value) (i : Nat) : Exec Value := sure args[i]?

def toInt : Value → Exec Int32
  | .int v => return v
  | _ => crash

def toLong : Value → Exec Int64
  | .long v => return v
  | _ => crash

def toFloat : Value → Exec UInt32
  | .float bits => return bits
  | _ => crash

def toDouble : Value → Exec UInt64
  | .double bits => return bits
  | _ => crash

def toText : Value → Exec String
  | .str s => return s
  | _ => crash

/-- The identity and the contents of an object. -/
def toObject : Value → Exec (Nat × Obj)
  | .obj id => return (id, ← getObject id)
  | _ => crash

def toArray : Value → Exec ArrayObj
  | .arr id => getArray id
  | _ => crash

/-- The boxed value of an object, or the name of a class as a text. -/
def boxedValue (v : Value) : Exec Value := do
  match (← toObject v).2.native with
  | .value v => return v
  | _ => crash

/-! ### Text -/

/-- A number written out: positional from a thousandth to below ten million, scientific outside, and
with one fractional digit at least. -/
def floatText (f : Number.Format) (bits : Nat) : String :=
  let withFraction (s : String) : String := if s.toList.contains '.' then s else s ++ ".0"
  match Number.decode f bits with
  | .notANumber => "NaN"
  | .infinite negative => if negative then "-Infinity" else "Infinity"
  | .finite negative m e =>
    let sign := if negative then "-" else ""
    if m = 0 then sign ++ "0.0"
    else
      let d := Number.shortest f m e
      let size : Number.Datum := .finite false m e
      let low := Number.decode Number.double 0x3F50624DD2F1A9FC
      let high := Number.decode Number.double (Number.ofInt Number.double 10000000)
      if !size.lt low && size.lt high then sign ++ withFraction d.positional
      else sign ++ withFraction d.leading ++ "E" ++ toString d.exponent

/-- A value as text, by asking it if it is an object. -/
def textOf (invoke : Invoke) (v : Value) : Exec String := do
  match v with
  | .null => return "null"
  | .str s => return s
  | v =>
    match ← callVirtual invoke v "toString" "()Ljava/lang/String;" [] with
    | .null => return "null"
    | s => toText s

/-- A value of a type as text, by the letter of its descriptor. -/
def format (invoke : Invoke) (v : Value) (letter : Char) : Exec String := do
  match letter with
  | 'I' | 'B' | 'S' => return toString (← toInt v).toInt
  | 'J' => return toString (← toLong v).toInt
  | 'Z' => return if (← toInt v) != 0 then "true" else "false"
  | 'C' => return Text.ofUnits [(← toInt v).toUInt32.toUInt16]
  | 'F' => return floatText Number.single (← toFloat v).toNat
  | 'D' => return floatText Number.double (← toDouble v).toNat
  | _ => textOf invoke v

/-! ### Equality and hashes -/

def isNaN (f : Number.Format) (bits : Nat) : Bool := (Number.decode f bits).isNaN

/-- The hash of a value of a primitive type, by the letter of its descriptor. -/
def primitiveHash (v : Value) (letter : Char) : Exec Int32 := do
  if letter = 'Z' then return if (← toInt v) != 0 then 1231 else 1237
  match v with
  | .int v => return v
  | .long v => return (v ^^^ (v.toUInt64 >>> 32).toInt64).toInt32
  | .float bits =>
    return if isNaN Number.single bits.toNat then 0x7FC00000 else bits.toInt32
  | .double bits =>
    let bits : UInt64 := if isNaN Number.double bits.toNat then 0x7FF8000000000000 else bits
    return (bits ^^^ (bits >>> 32)).toUInt32.toInt32
  | _ => return 0

/-- Equality of boxed values: floats by their patterns. -/
def boxedEqual (a b : Value) : Exec Bool := do
  match a with
  | .float x =>
    let y ← toFloat b
    return x == y || isNaN Number.single x.toNat && isNaN Number.single y.toNat
  | .double x =>
    let y ← toDouble b
    return x == y || isNaN Number.double x.toNat && isNaN Number.double y.toNat
  | a => return a.same b

/-- Equality by asking the first value, unless one is null or both are the same. -/
def valuesEqual (invoke : Invoke) (a b : Value) : Exec Bool := do
  if a.isNull || b.isNull then return a.same b
  if a.same b then return true
  return (← callVirtual invoke a "equals" "(Ljava/lang/Object;)Z" [b]).isTrue

def hashOf (invoke : Invoke) (v : Value) : Exec Value := do
  if v.isNull then return .int 0
  callVirtual invoke v "hashCode" "()I" []

/-- The letter of the elements of an array. -/
def ArrayObj.letter (a : ArrayObj) : Exec Char := sure (a.desc.toList.drop 1).head?

def isReferenceLetter (c : Char) : Bool := c == 'L' || c == '['

/-- Whether elements at the same positions are equal, given what decides. -/
def allEqual (eq : Value → Value → Exec Bool) : List Value → List Value → Exec Bool
  | x :: xs, y :: ys => do if ← eq x y then allEqual eq xs ys else return false
  | _, _ => return true

/-- Equality of arrays element by element, and of arrays within them if it goes deep. -/
def arraysEqualUpTo (invoke : Invoke) (deep : Bool) : Nat → Value → Value → Exec Bool
  | 0, _, _ => throw .fuel
  | n + 1, a, b => do
    if a.isNull || b.isNull then return a.same b
    let x ← toArray a
    let y ← toArray b
    if x.data.size != y.data.size then return false
    allEqual (fun ex ey => do
      if !isReferenceLetter (← x.letter) then boxedEqual ex ey
      else if deep && ex.isArray && ey.isArray then arraysEqualUpTo invoke deep n ex ey
      else valuesEqual invoke ex ey) x.data.toList y.data.toList

/-- The hash of an array from those of its elements, and of arrays within it if it goes deep. -/
def arrayHashUpTo (invoke : Invoke) (deep : Bool) : Nat → Value → Exec Value
  | 0, _ => throw .fuel
  | n + 1, v => do
    if v.isNull then return .int 0
    let a ← toArray v
    let h ← a.data.toList.foldlM (fun h e => do
      let letter ← a.letter
      let eh ← if !isReferenceLetter letter then primitiveHash e letter
        else if deep && e.isArray then toInt (← arrayHashUpTo invoke deep n e)
        else toInt (← hashOf invoke e)
      return 31 * h + eh) 1
    return .int h

/-! ### Methods -/

/-- A platform object as text: its class and its hash. -/
def describe (invoke : Invoke) (v : Value) : Exec Value := do
  let h ← toInt (← callVirtual invoke v "hashCode" "()I" [])
  let cls := (← get).classOf v
  let digits := if h = 0 then "0" else Text.hex 0 h.toUInt32.toNat
  return .str (dotted cls ++ "@" ++ digits)

def charAt (s : String) (i : Value) : Exec Value := do
  let units := Text.units s
  let i ← toInt i
  match if i < 0 then none else units[i.toInt.toNat]? with
  | some u => return .int (.ofNat u.toNat)
  | none =>
    raise "java/lang/StringIndexOutOfBoundsException"
      s!"index {i.toInt}, length {units.length}"

def constantState (v : Value) : Exec (String × Int32) := do
  match (← toObject v).2.native with
  | .constant name ordinal => return (name, ordinal)
  | _ => crash

/-- The first of some constants with a name. -/
def findConstant? (name : String) : List Value → Exec (Option Value)
  | [] => return none
  | v :: vs => do
    if (← constantState v).1 = name then return some v
    findConstant? name vs

/-- The constant of an enumeration with a name. -/
def constantOf (invoke : Invoke) (cls name : Value) : Exec Value := do
  let cls ← toText (← boxedValue cls)
  match name with
  | .str name =>
    let internal := internalOfBinary cls
    let values ← callStatic invoke internal "values" ("()[L" ++ cls ++ ";") []
    match ← findConstant? name (← toArray values).data.toList with
    | some v => return v
    | none =>
      raise "java/lang/IllegalArgumentException" ("No enum constant " ++ dotted cls ++ "." ++ name)
  | _ => raise "java/lang/NullPointerException" "Name is null"

/-- Appends to the text of a builder. -/
def append (builder : Value) (text : String) : Exec Unit := do
  let (id, o) ← toObject builder
  match o.native with
  | .builder _ =>
    modify fun s => s.changeObject id fun o =>
      match o with
      | ⟨cls, fields, .builder before⟩ => ⟨cls, fields, .builder (before ++ text)⟩
      | o => o
  | _ => crash

def runPlatform (invoke : Invoke) (fuel : Nat) (p : Platform) (args : List Value) : Exec Value := do
  let a := arg args
  match p with
  | .nothing => return .null
  | .identityHash =>
    match ← a 0 with
    | .obj id => return .int (.ofNat id)
    | _ => return .int 0
  | .identical => return .ofBool ((← a 0).same (← a 1))
  | .describe => describe invoke (← a 0)
  | .getClass => do
    let v ← a 0
    classObject ((← get).classOf v)
  | .className => return .str (dotted (← toText (← boxedValue (← a 0))))
  | .textHash => return .int (Text.hash (← toText (← a 0)))
  | .textEquals =>
    match ← a 1 with
    | .str s => return .ofBool (s == (← toText (← a 0)))
    | _ => return .ofBool false
  | .textLength => return .int (.ofNat (Text.units (← toText (← a 0))).length)
  | .textIsEmpty => return .ofBool ((← toText (← a 0)) == "")
  | .charAt => charAt (← toText (← a 0)) (← a 1)
  | .itself => a 0
  | .textOf letter => return .str (← format invoke (← a 0) letter)
  | .newBuilder =>
    setNative (← toObject (← a 0)).1 (.builder "")
    return .null
  | .builderOf =>
    let text ← toText (← a 1)
    setNative (← toObject (← a 0)).1 (.builder text)
    return .null
  | .append letter =>
    append (← a 0) (← format invoke (← a 1) letter)
    a 0
  | .builderText =>
    match (← toObject (← a 0)).2.native with
    | .builder text => return .str text
    | _ => crash
  | .box p =>
    let id ← newObject (Platform.wrapper p)
    setNative id (.value (← a 0))
    return .obj id
  | .unbox => boxedValue (← a 0)
  | .hashOf p => return .int (← primitiveHash (← a 0) p.letter)
  | .boxHash p => return .int (← primitiveHash (← boxedValue (← a 0)) p.letter)
  | .boxEquals p =>
    match ← a 1 with
    | .obj id =>
      if (← getObject id).cls != Platform.wrapper p then return .ofBool false
      return .ofBool (← boxedEqual (← boxedValue (← a 0)) (← boxedValue (.obj id)))
    | _ => return .ofBool false
  | .boxText p => return .str (← format invoke (← boxedValue (← a 0)) p.letter)
  | .setMessage =>
    let message ← a 1
    if !message.isNull then setField (← toObject (← a 0)).1 messageField message
    return .null
  | .getMessage => return ((← toObject (← a 0)).2.fields.lookup messageField).getD .null
  | .exceptionText => return .str (← toObject (← a 0)).2.exceptionText
  | .newConstant =>
    let name ← toText (← a 1)
    let ordinal ← toInt (← a 2)
    setNative (← toObject (← a 0)).1 (.constant name ordinal)
    return .null
  | .constantName => return .str (← constantState (← a 0)).1
  | .ordinal => return .int (← constantState (← a 0)).2
  | .constantOf => constantOf invoke (← a 0) (← a 1)
  | .equals => return .ofBool (← valuesEqual invoke (← a 0) (← a 1))
  | .hashCode => hashOf invoke (← a 0)
  | .arraysEqual deep => return .ofBool (← arraysEqualUpTo invoke deep fuel (← a 0) (← a 1))
  | .arrayHash deep => arrayHashUpTo invoke deep fuel (← a 0)
  | .max => return .int (Max.max (← toInt (← a 0)) (← toInt (← a 1)))
  | .min => return .int (Min.min (← toInt (← a 0)) (← toInt (← a 1)))
  | .abs =>
    let v ← toInt (← a 0)
    return .int (if v < 0 then -v else v)
  | .cloneArray =>
    let array ← toArray (← a 0)
    newArray array.desc array.data

end Classwright.Machine
