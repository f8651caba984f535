import Classwright.Ty.Basic

/-!
Platform methods.

The classes of the platform are not loaded from files. `Platform.find?` has the methods of theirs
that the machine knows, by class, name and descriptor.
-/

namespace Classwright.Machine

/-- What a platform method does. A letter is that of the descriptor of what is written out. -/
inductive Platform where
  | nothing
  | identityHash
  | identical
  | describe
  | getClass
  | className
  | textHash
  | textEquals
  | textLength
  | textIsEmpty
  | charAt
  | itself
  | textOf (letter : Char)
  | newBuilder
  | builderOf
  | append (letter : Char)
  | builderText
  | box (p : Prim)
  | unbox
  | hashOf (p : Prim)
  | boxHash (p : Prim)
  | boxEquals (p : Prim)
  | boxText (p : Prim)
  | setMessage
  | getMessage
  | exceptionText
  | newConstant
  | constantName
  | ordinal
  | constantOf
  | equals
  | hashCode
  | arraysEqual (deep : Bool)
  | arrayHash (deep : Bool)
  | max
  | min
  | abs
  | cloneArray
  deriving DecidableEq, Repr

namespace Platform

def objectDesc : String := "Ljava/lang/Object;"
def stringDesc : String := "Ljava/lang/String;"
def builderClass : String := "java/lang/StringBuilder"
def throwable : String := "java/lang/Throwable"

/-- The primitives that have wrappers. -/
def boxed : List Prim := [.boolean, .byte, .short, .char, .int, .long, .float, .double]

/-- The class of the objects that hold a primitive value. -/
def wrapper (p : Prim) : String := ((p.wrapper?.map ClassTy.internal)).getD ""

/-- The first letter of a descriptor. -/
def letter (desc : String) : Char := desc.toList.headD 'V'

def objectMethods : List (String × Platform) :=
  [("java/lang/Object.<init>()V", nothing),
   ("java/lang/Record.<init>()V", nothing),
   ("java/lang/Object.hashCode()I", identityHash),
   ("java/lang/Object.equals(Ljava/lang/Object;)Z", identical),
   ("java/lang/Object.toString()Ljava/lang/String;", describe),
   ("java/lang/Object.getClass()Ljava/lang/Class;", getClass),
   ("java/lang/Class.getName()Ljava/lang/String;", className)]

def stringMethods : List (String × Platform) :=
  [("java/lang/String.hashCode()I", textHash),
   ("java/lang/String.equals(Ljava/lang/Object;)Z", textEquals),
   ("java/lang/String.length()I", textLength),
   ("java/lang/String.isEmpty()Z", textIsEmpty),
   ("java/lang/String.charAt(I)C", charAt),
   ("java/lang/String.toString()Ljava/lang/String;", itself)]
  ++ ["I", "J", "F", "D", "Z", "C", objectDesc].map fun d =>
    ("java/lang/String.valueOf(" ++ d ++ ")" ++ stringDesc, textOf (letter d))

def builderMethods : List (String × Platform) :=
  [(builderClass ++ ".<init>()V", newBuilder),
   (builderClass ++ ".<init>(Ljava/lang/String;)V", builderOf),
   (builderClass ++ ".toString()Ljava/lang/String;", builderText)]
  ++ [stringDesc, objectDesc, "I", "J", "F", "D", "Z", "C"].map fun d =>
    (builderClass ++ ".append(" ++ d ++ ")L" ++ builderClass ++ ";", append (letter d))

def wrapperMethods (p : Prim) : List (String × Platform) :=
  let cls := wrapper p
  [(cls ++ ".valueOf(" ++ p.descriptor ++ ")L" ++ cls ++ ";", box p),
   (cls ++ "." ++ p.name ++ "Value()" ++ p.descriptor, unbox),
   (cls ++ ".hashCode(" ++ p.descriptor ++ ")I", hashOf p),
   (cls ++ ".hashCode()I", boxHash p),
   (cls ++ ".equals(Ljava/lang/Object;)Z", boxEquals p),
   (cls ++ ".toString()Ljava/lang/String;", boxText p)]

def throwableMethods : List (String × Platform) :=
  [(throwable ++ ".<init>()V", nothing),
   (throwable ++ ".<init>(Ljava/lang/String;)V", setMessage),
   (throwable ++ ".getMessage()Ljava/lang/String;", getMessage),
   (throwable ++ ".toString()Ljava/lang/String;", exceptionText)]

def enumMethods : List (String × Platform) :=
  [("java/lang/Enum.<init>(Ljava/lang/String;I)V", newConstant),
   ("java/lang/Enum.name()Ljava/lang/String;", constantName),
   ("java/lang/Enum.toString()Ljava/lang/String;", constantName),
   ("java/lang/Enum.ordinal()I", ordinal),
   ("java/lang/Enum.valueOf(Ljava/lang/Class;Ljava/lang/String;)Ljava/lang/Enum;", constantOf)]

def utilityMethods : List (String × Platform) :=
  [("java/util/Objects.equals(Ljava/lang/Object;Ljava/lang/Object;)Z", equals),
   ("java/util/Objects.hashCode(Ljava/lang/Object;)I", hashCode),
   ("java/util/Arrays.deepEquals([Ljava/lang/Object;[Ljava/lang/Object;)Z", arraysEqual true),
   ("java/util/Arrays.deepHashCode([Ljava/lang/Object;)I", arrayHash true),
   ("java/lang/Math.max(II)I", max),
   ("java/lang/Math.min(II)I", min),
   ("java/lang/Math.abs(I)I", abs)]
  ++ ["[Z", "[B", "[S", "[C", "[I", "[J", "[F", "[D", "[" ++ objectDesc].flatMap fun d =>
    [("java/util/Arrays.equals(" ++ d ++ d ++ ")Z", arraysEqual false),
     ("java/util/Arrays.hashCode(" ++ d ++ ")I", arrayHash false)]

/-- All platform methods. -/
def all : List (String × Platform) :=
  objectMethods ++ stringMethods ++ builderMethods ++ boxed.flatMap wrapperMethods
    ++ throwableMethods ++ enumMethods ++ utilityMethods

/-- The platform method of a class. -/
def find? (cls name desc : String) : Option Platform := all.lookup (cls ++ "." ++ name ++ desc)

/-- The interfaces of platform classes. -/
def interfaces : List (String × List String) :=
  [("java/lang/String", ["java/io/Serializable", "java/lang/Comparable", "java/lang/CharSequence"]),
   ("java/lang/Enum", ["java/lang/Comparable", "java/io/Serializable"]),
   ("java/lang/Throwable", ["java/io/Serializable"]),
   ("java/lang/Number", ["java/io/Serializable"]),
   ("java/lang/Boolean", ["java/io/Serializable", "java/lang/Comparable"]),
   ("java/lang/Character", ["java/io/Serializable", "java/lang/Comparable"])]
  ++ [Prim.byte, .short, .int, .long, .float, .double].map fun p =>
    (wrapper p, ["java/lang/Comparable"])

end Platform

end Classwright.Machine
