import Classwright.Misuse

/-!
Types.

`Ty` is a type as it is written: a primitive, a class, a generic application, a wildcard, a type
variable, an array, or one of these with type-use annotations. `Erased` is a type as a class file
knows it, and `Ty.erase` goes from the one to the other. Descriptors, stack categories and widths
are properties of the erased type; generic signatures are not.

A type that was never given is `Ty.absent`. It erases to `void`.
-/

namespace Classwright

/-! ### Primitives -/

/-- The primitive types, `void` among them. -/
inductive Prim where
  | void | boolean | byte | short | char | int | long | float | double
  deriving DecidableEq, Repr

namespace Prim

def name : Prim → String
  | void => "void"
  | boolean => "boolean"
  | byte => "byte"
  | short => "short"
  | char => "char"
  | int => "int"
  | long => "long"
  | float => "float"
  | double => "double"

/-- The letter of a primitive in descriptors. -/
def letter : Prim → Char
  | void => 'V'
  | boolean => 'Z'
  | byte => 'B'
  | short => 'S'
  | char => 'C'
  | int => 'I'
  | long => 'J'
  | float => 'F'
  | double => 'D'

def descriptor (p : Prim) : String := String.singleton p.letter

def all : List Prim := [void, boolean, byte, short, char, int, long, float, double]

/-- The primitive with a given name. -/
def ofName? (s : String) : Option Prim := all.find? (·.name == s)

/-- The place in the widening chain, `-1` for what takes no part in it. -/
def rank : Prim → Int
  | byte | short | char => 0
  | int => 1
  | long => 2
  | float => 3
  | double => 4
  | _ => -1

/-- Whether a primitive takes part in numeric promotion. -/
def isNumeric (p : Prim) : Bool := 0 ≤ p.rank

/-- Whether every value of the first converts to the second without loss of range. -/
def widensTo (a b : Prim) : Bool :=
  if a = b then true
  else if !a.isNumeric || !b.isNumeric then false
  else match a with
    | byte => b != char
    | short | char => 0 < b.rank
    | _ => a.rank < b.rank

/-- The small integers are promoted to `int`. -/
def promote (p : Prim) : Prim := if p.rank = 0 then int else p

/-- The common operand type of a numeric operator. -/
def promote2 (a b : Prim) : Prim :=
  if b.promote.rank ≤ a.promote.rank then a.promote else b.promote

end Prim

/-! ### Classes -/

/-- The declared kind of a class. -/
inductive ClassKind where
  | ordinary | interface | enumeration | record | annotationType
  deriving DecidableEq, Repr

def ClassKind.name : ClassKind → String
  | ordinary => "class"
  | interface => "interface"
  | enumeration => "enum"
  | record => "record"
  | annotationType => "annotation"

/-- The part of a text after the last occurrence of a character, or the whole text. -/
def afterLast (c : Char) (s : String) : String :=
  String.ofList (s.toList.reverse.takeWhile (· ≠ c)).reverse

/-- The part of a text before the last occurrence of a character, if it occurs. -/
def beforeLast? (c : Char) (s : String) : Option String :=
  match s.toList.reverse.dropWhile (· ≠ c) with
  | [] => none
  | _ :: r => some (String.ofList r.reverse)

/-- A class by its binary name, such as `java.lang.String` or `com.example.Outer$Inner`. -/
structure ClassTy where
  name : String
  kind : ClassKind := .ordinary
  nullable : Bool := false
  deriving DecidableEq, Repr

/-- Replaces every dot of a binary name by a slash. -/
def internalOfBinary (name : String) : String :=
  String.ofList (name.toList.map fun c => if c = '.' then '/' else c)

/-- Replaces every slash of an internal name by a dot. -/
def binaryOfInternal (name : String) : String :=
  String.ofList (name.toList.map fun c => if c = '/' then '.' else c)

namespace ClassTy

/-- The name in class files. -/
def internal (c : ClassTy) : String := internalOfBinary c.name

def packageName (c : ClassTy) : String := (beforeLast? '.' c.name).getD ""

/-- The name without package and enclosing classes. -/
def simpleName (c : ClassTy) : String := afterLast '$' (afterLast '.' c.name)

/-- A member class. -/
def nested (c : ClassTy) (simple : String) (kind : ClassKind) : ClassTy :=
  ⟨c.name ++ "$" ++ simple, kind, false⟩

def object : ClassTy := ⟨"java.lang.Object", .ordinary, false⟩
def string : ClassTy := ⟨"java.lang.String", .ordinary, false⟩
def classObject : ClassTy := ⟨"java.lang.Class", .ordinary, false⟩
def throwable : ClassTy := ⟨"java.lang.Throwable", .ordinary, false⟩
def enumBase : ClassTy := ⟨"java.lang.Enum", .ordinary, false⟩
def recordBase : ClassTy := ⟨"java.lang.Record", .ordinary, false⟩
def stringBuilder : ClassTy := ⟨"java.lang.StringBuilder", .ordinary, false⟩
def arrays : ClassTy := ⟨"java.util.Arrays", .ordinary, false⟩
def objects : ClassTy := ⟨"java.util.Objects", .ordinary, false⟩

end ClassTy

/-- The class whose instances box a primitive. -/
def Prim.wrapper? : Prim → Option ClassTy
  | .void => none
  | .boolean => some ⟨"java.lang.Boolean", .ordinary, false⟩
  | .byte => some ⟨"java.lang.Byte", .ordinary, false⟩
  | .short => some ⟨"java.lang.Short", .ordinary, false⟩
  | .char => some ⟨"java.lang.Character", .ordinary, false⟩
  | .int => some ⟨"java.lang.Integer", .ordinary, false⟩
  | .long => some ⟨"java.lang.Long", .ordinary, false⟩
  | .float => some ⟨"java.lang.Float", .ordinary, false⟩
  | .double => some ⟨"java.lang.Double", .ordinary, false⟩

/-! ### Types as written -/

/-- A type as it is written. `array` has `dims` dimensions over `of`; the marks of an annotated type
name its annotations, which never reach a class file. -/
inductive Ty where
  | absent
  | prim (p : Prim)
  | cls (c : ClassTy)
  | generic (raw : ClassTy) (args : List Ty)
  | wildcard (upper lower : List Ty)
  | var (name : String) (bounds : List Ty)
  | array (of : Ty) (dims : Nat)
  | annotated (of : Ty) (marks : List String)
  deriving Repr

/-- A declared type parameter. -/
structure TypeVar where
  name : String
  bounds : List Ty
  deriving Repr

instance : Inhabited Ty := ⟨.absent⟩

/-- A type as a class file knows it. -/
inductive Erased where
  | prim (p : Prim)
  | cls (c : ClassTy)
  | array (of : Erased) (dims : Nat)
  deriving DecidableEq, Repr

/-! ### Erased types -/

/-- The computational category of a value on the operand stack. -/
inductive Category where
  | void | int | long | float | double | ref
  deriving DecidableEq, Repr

def Category.name : Category → String
  | void => "void"
  | int => "int"
  | long => "long"
  | float => "float"
  | double => "double"
  | ref => "ref"

/-- The number of stack words or local slots of a value. -/
def Category.width : Category → Nat
  | void => 0
  | long | double => 2
  | _ => 1

def Prim.category : Prim → Category
  | .void => .void
  | .long => .long
  | .float => .float
  | .double => .double
  | _ => .int

namespace Erased

/-- The same type, as written. -/
def toTy : Erased → Ty
  | prim p => .prim p
  | cls c => .cls c
  | array of dims => .array of.toTy dims

def descriptor : Erased → String
  | prim p => p.descriptor
  | cls c => "L" ++ c.internal ++ ";"
  | array of dims => String.ofList (List.replicate dims '[') ++ of.descriptor

def category : Erased → Category
  | prim p => p.category
  | _ => .ref

def width (e : Erased) : Nat := e.category.width

def prim? : Erased → Option Prim
  | prim p => some p
  | _ => none

def isPrimitive : Erased → Bool
  | prim p => p != .void
  | _ => false

def isVoid (e : Erased) : Bool := e == .prim .void

def isReference : Erased → Bool
  | prim _ => false
  | _ => true

/-- The type of one element of an array of `of` with `dims` dimensions. -/
def element (of : Erased) (dims : Nat) : Erased :=
  if 1 < dims then array of (dims - 1) else of

/-- The primitive that a wrapper class boxes. -/
def unwrap? : Erased → Option Prim
  | cls c => Prim.all.find? fun p => p.wrapper?.map (·.name) == some c.name
  | _ => none

/-- The name of a type in the source of its writer. -/
def text : Erased → String
  | prim p => p.name
  | cls c => c.name
  | array of dims => of.text ++ String.join (List.replicate dims "[]")

end Erased

/-! ### Operations on types as written -/

namespace Ty

/-- The type at run time: type arguments go, a variable or wildcard is its first bound. -/
def erase : Ty → Erased
  | absent => .prim .void
  | prim p => .prim p
  | cls c => .cls c
  | generic raw _ => .cls raw
  | wildcard (u :: _) _ => u.erase
  | wildcard [] _ => .cls .object
  | var _ (b :: _) => b.erase
  | var _ [] => .cls .object
  | array of dims => .array of.erase dims
  | annotated of _ => of.erase

mutual

/-- The type as its writer spells it, if no part of it is absent. -/
def text? : Ty → Option String
  | absent => none
  | prim p => some p.name
  | cls c => some c.name
  | generic raw args => do
    let shown ← texts? args
    return raw.name ++ "<" ++ ", ".intercalate shown ++ ">"
  | wildcard _ (l :: _) => do return "? super " ++ (← text? l)
  | wildcard (u :: _) [] => do return "? extends " ++ (← text? u)
  | wildcard [] [] => some "?"
  | var name _ => some name
  | array of dims => do return (← text? of) ++ String.join (List.replicate dims "[]")
  | annotated of _ => text? of

def texts? : List Ty → Option (List String)
  | [] => some []
  | t :: ts => do return (← text? t) :: (← texts? ts)

end

/-- What a formatting directive `verb` prints for a type. -/
def shownAs (verb : String) (t : Ty) : String :=
  match t, t.text? with
  | absent, _ => if verb == "v" then "<nil>" else "%!" ++ verb ++ "(<nil>)"
  | _, some s => s
  | _, none => "%!" ++ verb ++
      "(PANIC=String method: runtime error: invalid memory address or nil pointer dereference)"

/-- The type as messages print it. -/
def shown (t : Ty) : String := t.shownAs "s"

def descriptor (t : Ty) : String := t.erase.descriptor

/-- Whether two types are one at run time. -/
def sameErasure (a b : Ty) : Bool := a.descriptor == b.descriptor

def category (t : Ty) : Category := t.erase.category

def width (t : Ty) : Nat := t.erase.width

def isPrimitive (t : Ty) : Bool := t.erase.isPrimitive

def isVoid (t : Ty) : Bool := t.erase.isVoid

def isReference (t : Ty) : Bool := t.erase.isReference

def unwrap? (t : Ty) : Option Prim := t.erase.unwrap?

/-- The primitive a value gives after unboxing, `void` when there is none. -/
def unboxed (t : Ty) : Prim :=
  match t.erase with
  | .prim p => p
  | e => e.unwrap?.getD .void

/-- The name of a reference type in class files: the internal name of a class, the descriptor of an
array. -/
def internal (t : Ty) : Except Misuse String :=
  match t.erase with
  | .cls c => .ok c.internal
  | .array of dims => .ok (Erased.array of dims).descriptor
  | .prim _ => .error (.notReference t.shown)

/-- Whether a type needs a generic signature to be told in full. -/
def isGeneric : Ty → Bool
  | generic .. | wildcard .. | var .. => true
  | array of _ => of.isGeneric
  | annotated of _ => of.isGeneric
  | _ => false

mutual

/-- The generic signature. -/
def signature : Ty → Except Misuse String
  | absent => .error .unknownType
  | prim p => .ok p.descriptor
  | cls c => .ok ("L" ++ c.internal ++ ";")
  | generic raw args => do return "L" ++ raw.internal ++ "<" ++ (← signatures args) ++ ">;"
  | wildcard _ (l :: _) => do return "-" ++ (← signature l)
  | wildcard (u :: _) [] => do return "+" ++ (← signature u)
  | wildcard [] [] => .ok "*"
  | var name _ => .ok ("T" ++ name ++ ";")
  | array of dims => do return String.ofList (List.replicate dims '[') ++ (← signature of)
  | annotated of _ => signature of

/-- The signatures of several types, one after the other. -/
def signatures : List Ty → Except Misuse String
  | [] => .ok ""
  | t :: ts => do return (← signature t) ++ (← signatures ts)

end

/-- Takes off one layer of annotations. -/
def strip : Ty → Ty
  | annotated of _ => of
  | t => t

mutual

/-- Whether two types are written alike, up to annotations, class kinds, nullability and the bounds
of variables. One layer of annotations is taken off on each side at a time. -/
def same : Ty → Ty → Bool
  | annotated a _, b => same a b.strip
  | prim p, b => match b.strip with
    | prim q => p == q
    | _ => false
  | cls c, b => match b.strip with
    | cls d => c.name == d.name
    | _ => false
  | generic raw args, b => match b.strip with
    | generic raw' args' => raw.name == raw'.name && sameAll args args'
    | _ => false
  | wildcard upper lower, b => match b.strip with
    | wildcard upper' lower' => sameAll upper upper' && sameAll lower lower'
    | _ => false
  | var name _, b => match b.strip with
    | var name' _ => name == name'
    | _ => false
  | array of dims, b => match b.strip with
    | array of' dims' => dims == dims' && same of of'
    | _ => false
  | absent, _ => false

def sameAll : List Ty → List Ty → Bool
  | [], [] => true
  | a :: as, b :: bs => same a b && sameAll as bs
  | _, _ => false

end

/-- A one-dimensional array of a type; arrays of arrays are one array with more dimensions. -/
def arrayOf : Ty → Ty
  | array of dims => array of (dims + 1)
  | t => array t 1

/-- The type of one element of an array of `of` with `dims` dimensions. -/
def element (of : Ty) (dims : Nat) : Ty :=
  if 1 < dims then array of (dims - 1) else of

def object : Ty := .cls .object
def string : Ty := .cls .string

end Ty

/-! ### Methods and type parameters -/

/-- The descriptor of a method with these parameter and return types. -/
def methodDescriptor (params : List Ty) (ret : Ty) : String :=
  "(" ++ String.join (params.map Ty.descriptor) ++ ")" ++ ret.descriptor

/-- The bounds of a type parameter, each after a colon; without any it is bounded by `Object`. -/
def TypeVar.signature (v : TypeVar) : Except Misuse String := do
  let bounds ← match v.bounds with
    | [] => (Ty.cls .object).signature.map ([·])
    | bs => bs.mapM Ty.signature
  return v.name ++ ":" ++ ":".intercalate bounds

/-- The formal type parameters in angle brackets, or nothing when there are none. -/
def typeVarsSignature (vars : List TypeVar) : Except Misuse String := do
  if vars.isEmpty then return ""
  let parts ← vars.mapM TypeVar.signature
  return "<" ++ String.join parts ++ ">"

end Classwright
