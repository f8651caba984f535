import Classwright.Decl.Annotation
import Classwright.Name

/-!
Declarations of classes, interfaces, enumerations and records, with their members.

A `Decl` is its own `Contents` and the declarations of its member types.
-/

namespace Classwright

/-! ### Modifiers -/

inductive Modifier where
  | pub | priv | prot | static | final | abstract | synchronized | volatile | transient
  deriving DecidableEq, Repr

namespace Modifier

def all : List Modifier :=
  [pub, priv, prot, static, final, abstract, synchronized, volatile, transient]

def name : Modifier → String
  | pub => "public"
  | priv => "private"
  | prot => "protected"
  | static => "static"
  | final => "final"
  | abstract => "abstract"
  | synchronized => "synchronized"
  | volatile => "volatile"
  | transient => "transient"

end Modifier

/-- A set of modifiers, as a list in which only membership counts. -/
abbrev Modifiers := List Modifier

def Modifiers.has (ms : Modifiers) (m : Modifier) : Bool := ms.contains m

def Modifiers.ofNames (names : List String) : Modifiers :=
  names.filterMap fun s => Modifier.all.find? (·.name == s)

/-- The modifiers in their canonical order, each once. -/
def Modifiers.canonical (ms : Modifiers) : List Modifier := Modifier.all.filter ms.has

/-! ### Members -/

/-- The method name of constructors. -/
def constructorName : String := "<init>"

/-- The method name of the static initializer. -/
def staticInitName : String := "<clinit>"

/-- A field; the initializer may be absent. -/
structure Field where
  name : String
  ty : Ty
  modifiers : Modifiers
  init : Expr := .absent
  annotations : List Annotation := []

structure Param where
  name : String
  ty : Ty
  annotations : List Annotation := []

/-- A method or constructor. -/
structure Method where
  name : String
  modifiers : Modifiers := []
  typeVars : List TypeVar := []
  params : List Param := []
  ret : Ty := .absent
  body : List Stmt := []
  annotations : List Annotation := []

namespace Method

def isConstructor (m : Method) : Bool := m.name == constructorName

/-- Whether the method has no receiver. -/
def isStatic (m : Method) : Bool := m.modifiers.has .static || m.name == staticInitName

def isAbstract (m : Method) : Bool := m.modifiers.has .abstract

def returns (m : Method) : Ty :=
  match m.ret with
  | .absent => .prim .void
  | t => t

def paramTypes (m : Method) : List Ty := m.params.map (·.ty)

def descriptor (m : Method) : String := methodDescriptor m.paramTypes m.returns

/-- The method as a member of `owner`. -/
def ref (m : Method) (owner : ClassTy) : MethodRef := ⟨owner, m.name, m.paramTypes, m.returns⟩

/-- Whether the erased descriptor loses part of the method's types. -/
def isGeneric (m : Method) : Bool :=
  !m.typeVars.isEmpty || m.returns.isGeneric || m.params.any (·.ty.isGeneric)

def signature (m : Method) : Except Misuse String := do
  let vars ← typeVarsSignature m.typeVars
  let params ← Ty.signatures m.paramTypes
  return vars ++ "(" ++ params ++ ")" ++ (← m.returns.signature)

end Method

/-- A private field with accessors. -/
structure Property where
  name : String
  ty : Ty
  readOnly : Bool := false
  annotations : List Annotation := []

/-- A constant of an enumeration, with the arguments of its constructor. -/
structure EnumConst where
  name : String
  args : List Expr := []

/-! ### Declarations -/

/-- All of a declaration but its member types. -/
structure Contents where
  ty : ClassTy
  modifiers : Modifiers := []
  superclass : Ty := .absent
  interfaces : List Ty := []
  typeVars : List TypeVar := []
  fields : List Field := []
  methods : List Method := []
  properties : List Property := []
  annotations : List Annotation := []
  constants : List EnumConst := []
  components : List Param := []
  staticInit : List Stmt := []

namespace Contents

def name (c : Contents) : String := c.ty.name

def kind (c : Contents) : ClassKind := c.ty.kind

/-- The superclass, which depends on the kind unless one was declared. -/
def super (c : Contents) : Ty :=
  match c.superclass with
  | .absent =>
    match c.kind with
    | .enumeration => .generic .enumBase [.cls c.ty]
    | .record => .cls .recordBase
    | _ => .object
  | t => t

def propertyField (p : Property) : Field :=
  ⟨p.name, p.ty, [.priv], .absent, []⟩

def componentField (p : Param) : Field :=
  ⟨p.name, p.ty, [.priv, .final], .absent, []⟩

def constantField (owner : ClassTy) (k : EnumConst) : Field :=
  ⟨k.name, .cls owner, [.pub, .static, .final], .absent, []⟩

/-- Looks a name up among fields, properties, components and constants, in this order. -/
def field? (c : Contents) (name : String) : Option Field :=
  (c.fields.find? (·.name == name))
    <|> (c.properties.find? (·.name == name)).map propertyField
    <|> (c.components.find? (·.name == name)).map componentField
    <|> (c.constants.find? (·.name == name)).map (constantField c.ty)

def hasConstructor (c : Contents) : Bool := c.methods.any Method.isConstructor

def isGeneric (c : Contents) : Bool :=
  !c.typeVars.isEmpty || c.super.isGeneric || c.interfaces.any Ty.isGeneric

def signature (c : Contents) : Except Misuse String := do
  let vars ← typeVarsSignature c.typeVars
  let super ← c.super.signature
  return vars ++ super ++ (← Ty.signatures c.interfaces)

end Contents

/-- A declared type with its member types. -/
inductive Decl where
  | mk (contents : Contents) (nested : List Decl)

namespace Decl

def contents : Decl → Contents
  | mk contents _ => contents

def nested : Decl → List Decl
  | mk _ nested => nested

def ty (d : Decl) : ClassTy := d.contents.ty

def name (d : Decl) : String := d.ty.name

mutual

/-- A declaration and all below it, each before its member types. -/
def walk : Decl → List Decl
  | mk c nested => mk c nested :: walkAll nested

def walkAll : List Decl → List Decl
  | [] => []
  | d :: ds => walk d ++ walkAll ds

end

end Decl

end Classwright
