import Classwright.Frame.VType

/-!
Class hierarchies.

A hierarchy is a list of declared classes over a table of platform classes. It knows the superclass
of each class and which of them are interfaces, by internal names.
-/

namespace Classwright

structure ClassInfo where
  super : String
  isInterface : Bool := false
  deriving DecidableEq, Repr

/-- The platform classes below each superclass. -/
def platformBelow : List (String × List String) :=
  [("java/lang/Object",
    ["java/lang/String", "java/lang/Class", "java/lang/Number", "java/lang/Boolean",
     "java/lang/Character", "java/lang/Enum", "java/lang/Record", "java/lang/StringBuilder",
     "java/lang/Math", "java/lang/System", "java/util/Arrays", "java/util/Objects",
     "java/io/PrintStream", "java/lang/Throwable"]),
   ("java/lang/Number",
    ["java/lang/Byte", "java/lang/Short", "java/lang/Integer", "java/lang/Long", "java/lang/Float",
     "java/lang/Double"]),
   ("java/lang/Throwable", ["java/lang/Exception", "java/lang/Error"]),
   ("java/lang/Exception",
    ["java/lang/RuntimeException", "java/lang/InterruptedException",
     "java/lang/CloneNotSupportedException", "java/lang/ReflectiveOperationException",
     "java/io/IOException"]),
   ("java/lang/RuntimeException",
    ["java/lang/IllegalArgumentException", "java/lang/IllegalStateException",
     "java/lang/NullPointerException", "java/lang/ArithmeticException",
     "java/lang/ClassCastException", "java/lang/UnsupportedOperationException",
     "java/lang/IndexOutOfBoundsException", "java/io/UncheckedIOException"]),
   ("java/lang/IndexOutOfBoundsException",
    ["java/lang/ArrayIndexOutOfBoundsException", "java/lang/StringIndexOutOfBoundsException"]),
   ("java/lang/IllegalArgumentException", ["java/lang/NumberFormatException"])]

def platformInterfaces : List String :=
  ["java/lang/Comparable", "java/lang/CharSequence", "java/lang/Runnable", "java/lang/Iterable",
   "java/lang/AutoCloseable", "java/lang/Cloneable", "java/io/Serializable", "java/io/Closeable",
   "java/util/Collection", "java/util/List", "java/util/Set", "java/util/Map", "java/util/Iterator",
   "java/util/function/Supplier", "java/util/function/Function"]

def platform : List (String × ClassInfo) :=
  (objectClass, ⟨"", false⟩)
    :: platformBelow.flatMap (fun (super, names) => names.map fun n => (n, ⟨super, false⟩))
    ++ platformInterfaces.map fun n => (n, ⟨objectClass, true⟩)

/-- Declared classes, latest first, over the platform. -/
structure Hierarchy where
  declared : List (String × ClassInfo) := []

namespace Hierarchy

/-- Adds a class; without a superclass it extends the root. -/
def declare (h : Hierarchy) (name super : String) (isInterface : Bool) : Hierarchy :=
  let super := if super.isEmpty && name != objectClass then objectClass else super
  ⟨(name, ⟨super, isInterface⟩) :: h.declared⟩

def lookup? (h : Hierarchy) (name : String) : Option ClassInfo :=
  h.declared.lookup name <|> platform.lookup name

def super? (h : Hierarchy) (name : String) : Option String := (h.lookup? name).map (·.super)

def isInterface (h : Hierarchy) (name : String) : Bool := (h.lookup? name).any (·.isInterface)

/-! ### Common superclasses -/

/-- The superclass of a class, the root if it is not known. -/
def parent (h : Hierarchy) (name : String) : String :=
  match h.super? name with
  | some super => if super.isEmpty then objectClass else super
  | none => objectClass

/-- A class and its superclasses up to the root, at most `n` of them. -/
def ancestorsUpTo (h : Hierarchy) : Nat → String → List String
  | 0, name => [name]
  | n + 1, name => if name = objectClass then [name] else name :: h.ancestorsUpTo n (h.parent name)

/-- A class and its superclasses up to the root; long chains are cut. -/
def ancestors (h : Hierarchy) (name : String) : List String := h.ancestorsUpTo 63 name

/-- The nearest common superclass of two classes that are no arrays; interfaces have the root
only. -/
def commonClass (h : Hierarchy) (a b : String) : String :=
  if h.isInterface a || h.isInterface b then objectClass
  else
    let above := h.ancestors a
    ((h.ancestors b).find? above.contains).getD objectClass

/-- Whether a field descriptor is one of a reference. -/
def isReferenceDescriptor (cs : List Char) : Except Misuse Bool :=
  match cs with
  | [] => .error .broken
  | c :: _ => .ok (c == 'L' || c == '[')

def descriptorClass (cs : List Char) : Except Misuse String :=
  match cs with
  | 'L' :: _ => orBroken (inner? cs)
  | [] => .error .broken
  | _ => .ok (String.ofList cs)

/-- The nearest common superclass of internal names and array descriptors. The length of the first
is fuel enough. -/
def commonUpTo (h : Hierarchy) : Nat → String → String → Except Misuse String
  | 0, _, _ => .ok objectClass
  | fuel + 1, a, b => do
    if a = b then return a
    match a.toList, b.toList with
    | '[' :: ca, '[' :: cb =>
      if !(← isReferenceDescriptor ca) then return objectClass
      if !(← isReferenceDescriptor cb) then return objectClass
      let common ← h.commonUpTo fuel (← descriptorClass ca) (← descriptorClass cb)
      return "[" ++ classDescriptor common
    | '[' :: _, _ | _, '[' :: _ => return objectClass
    | _, _ => return h.commonClass a b

/-- The nearest common superclass of two reference types. -/
def common (h : Hierarchy) (a b : String) : Except Misuse String :=
  h.commonUpTo (a.length + 1) a b

/-! ### Subclasses -/

/-- Whether a class extends another, as far as the hierarchy can see. -/
inductive Extends where
  | yes | no | unknown
  deriving DecidableEq, Repr

/-- Follows superclasses from `name` in search of `target`, for `n` steps at most. -/
def climb (h : Hierarchy) (target : String) : Nat → String → Option Extends
  | 0, _ => none
  | n + 1, name =>
    if name = objectClass then some (if (h.super? target).isSome then .no else .unknown)
    else match h.super? name with
      | none => some .unknown
      | some super => if super = target then some .yes else h.climb target n super

/-- Whether class `a` is `b` or extends it. There is no answer where superclasses form a cycle that
does not hold `b`: more steps than there are classes repeat one. -/
def isSubclass (h : Hierarchy) (a b : String) : Option Extends :=
  if a = b ∨ b = objectClass then some .yes
  else if isArrayClass a || isArrayClass b then some .unknown
  else if h.isInterface a || h.isInterface b then some .unknown
  else h.climb b (h.declared.length + platform.length + 2) a

/-- Whether it is certain that neither class extends the other. -/
def unrelated (h : Hierarchy) (a b : String) : Option Bool := do
  let ab ← h.isSubclass a b
  let ba ← h.isSubclass b a
  return ab == .no && ba == .no

end Hierarchy

end Classwright
