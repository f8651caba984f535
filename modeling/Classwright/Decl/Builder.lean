import Classwright.Decl.Basic
import Classwright.Family

/-!
Building declarations step by step.

Each call on a builder checks its arguments at once. The first violation is kept: later calls change
nothing, and building answers with it. Building twice gives the same declaration, and a declaration
that was built takes no more members.
-/

namespace Classwright

/-! ### Violations -/

/-- What a builder refuses. -/
inductive Violation where
  | badName (cause : NameError)
  | emptyEnum
  | duplicateTypeVar (name : String)
  | duplicateField (name declaredBy : String)
  | duplicateMethod (method : String)
  | duplicateStaticInit
  | duplicateNested (simple : String)
  | duplicateParam (name : String)
  | duplicateParamOf (name method : String)
  | accessorTaken (accessor property : String)
  | alreadyBuilt
  | abstractFinal
  | superclassOf (kind : ClassKind)
  | notClass (type : String)
  | notInterface (type : String)
  | fieldUntyped (name : String)
  | recordFieldInstance (name : String)
  | interfaceConstructor
  | abstractInConcrete (method : String) (kind : ClassKind)
  | propertyUntyped (name : String)
  | propertyOf (kind : ClassKind)
  | constantOutsideEnum
  | componentOutsideRecord
  | componentUntyped (name : String)
  | notMemberName (name outer : String)
  | paramUntyped (name : String)
  | constructorReturns
  | abstractWithBody (method : String)
  | abstractStatic (method : String)
  | abstractConstructor
  deriving DecidableEq, Repr

namespace Violation

def family : Violation → Family
  | badName _ => .invalidIdentifier
  | emptyEnum => .emptyEnum
  | duplicateTypeVar _ | duplicateField .. | duplicateMethod _ | duplicateStaticInit
  | duplicateNested _ | duplicateParam _ | duplicateParamOf .. | accessorTaken .. =>
    .duplicateMember
  | _ => .invalidDecl

def detail : Violation → String
  | badName cause => cause.message
  | emptyEnum => "enum declares no constants"
  | duplicateTypeVar name => s!"type parameter {name}"
  | duplicateField name call => s!"{name} already declared by {call}"
  | duplicateMethod method => s!"method {method}"
  | duplicateStaticInit => "static initializer"
  | duplicateNested simple => s!"nested type {simple}"
  | duplicateParam name => s!"parameter {name}"
  | duplicateParamOf name method => s!"parameter {name} of {method}"
  | accessorTaken accessor property => s!"accessor {accessor} of property {property}"
  | alreadyBuilt => "declaration already built"
  | abstractFinal => "abstract and final"
  | superclassOf kind => s!"a {kind.name} cannot declare a superclass"
  | notClass type => s!"{type} is not a class"
  | notInterface type => s!"{type} is not an interface"
  | fieldUntyped name => s!"field {name} has no type"
  | recordFieldInstance name => s!"record field {name} must be static"
  | interfaceConstructor => "interfaces have no constructors"
  | abstractInConcrete method kind => s!"abstract method {method} in non-abstract {kind.name}"
  | propertyUntyped name => s!"property {name} has no type"
  | propertyOf kind => s!"a {kind.name} cannot declare properties"
  | constantOutsideEnum => "only enums declare constants"
  | componentOutsideRecord => "only records declare components"
  | componentUntyped name => s!"component {name} has no type"
  | notMemberName name outer => s!"{name} is not a member type name of {outer}"
  | paramUntyped name => s!"parameter {name} has no type"
  | constructorReturns => "constructors return void"
  | abstractWithBody method => s!"abstract method {method} has a body"
  | abstractStatic method => s!"abstract method {method} is static"
  | abstractConstructor => "abstract constructor"

def message (v : Violation) : String :=
  match v.family with
  | .duplicateMember => "duplicate member: " ++ v.detail
  | .invalidDecl => "invalid declaration: " ++ v.detail
  | _ => v.detail

end Violation

/-- A violation, with the declaration and the call it was found in. -/
structure BuildError where
  decl : String
  call : String
  cause : Violation
  deriving DecidableEq, Repr

def BuildError.message (e : BuildError) : String :=
  s!"build {e.decl}: {e.call}: {e.cause.message}"

/-- Checks an identifier inside a builder call. -/
def requireName (name : String) : Except Violation Unit :=
  (checkIdentifier name).mapError .badName

/-! ### Methods -/

/-- The first parameter whose name is bad or was used before it. -/
def checkParams (method : String) : List String → List Param → Except Violation Unit
  | _, [] => .ok ()
  | seen, p :: ps => do
    requireName p.name
    if seen.contains p.name then throw (.duplicateParamOf p.name method)
    checkParams method (p.name :: seen) ps

/-- Checks a method on its own. -/
def Method.check (m : Method) : Except Violation Unit := do
  if m.isConstructor then
    if !m.returns.isVoid then throw .constructorReturns
  else requireName m.name
  checkParams m.name [] m.params
  if m.isAbstract then
    if !m.body.isEmpty then throw (.abstractWithBody m.name)
    if m.modifiers.has .static then throw (.abstractStatic m.name)
    if m.isConstructor then throw .abstractConstructor

/-- A method being built. -/
structure MethodBuilder where
  method : Method
  error : Option BuildError := none

namespace MethodBuilder

/-- Records a violation unless there is one. -/
def fail (b : MethodBuilder) (call : String) (v : Violation) : MethodBuilder :=
  match b.error with
  | some _ => b
  | none => { b with error := some ⟨b.method.name, call, v⟩ }

/-- One checked call: nothing once there is a violation. -/
def step (b : MethodBuilder) (call : String) (f : Method → Except Violation Method) :
    MethodBuilder :=
  match b.error with
  | some _ => b
  | none =>
    match f b.method with
    | .ok m => { b with method := m }
    | .error v => b.fail call v

def ofName (name : String) : MethodBuilder :=
  (MethodBuilder.mk { name, ret := .prim .void } none).step "NewMethod" fun m => do
    requireName name
    return m

def constructor : MethodBuilder := ⟨{ name := constructorName, ret := .prim .void }, none⟩

def modifiers (b : MethodBuilder) (ms : Modifiers) : MethodBuilder :=
  { b with method.modifiers := ms }

def param (b : MethodBuilder) (name : String) (ty : Ty) (annotations : List Annotation) :
    MethodBuilder :=
  b.step "Param" fun m => do
    requireName name
    if ty.isVoid then throw (.paramUntyped name)
    if m.params.any (·.name == name) then throw (.duplicateParam name)
    return { m with params := m.params ++ [⟨name, ty, annotations⟩] }

def returns (b : MethodBuilder) (ty : Ty) : MethodBuilder :=
  b.step "Returns" fun m => do
    if m.isConstructor && !ty.isVoid then throw .constructorReturns
    return { m with ret := ty }

def typeVar (b : MethodBuilder) (v : TypeVar) : MethodBuilder :=
  b.step "TypeParam" fun m => do
    requireName v.name
    return { m with typeVars := m.typeVars ++ [v] }

def annotate (b : MethodBuilder) (a : Annotation) : MethodBuilder :=
  { b with method.annotations := b.method.annotations ++ [a] }

def body (b : MethodBuilder) (stmts : List Stmt) : MethodBuilder :=
  { b with method.body := b.method.body ++ stmts }

def build (b : MethodBuilder) : Except BuildError Method :=
  match b.error with
  | some e => .error e
  | none =>
    match b.method.check with
    | .ok _ => .ok b.method
    | .error v => .error ⟨b.method.name, "Build", v⟩

end MethodBuilder

/-! ### Declarations -/

/-- A declaration being built. -/
structure Builder where
  contents : Contents
  nested : List Decl := []
  /-- A static initializer was given, be it an empty one. -/
  initialized : Bool := false
  error : Option BuildError := none
  built : Option Decl := none

namespace Builder

/-- Records a violation unless there is one. -/
def fail (b : Builder) (call : String) (v : Violation) : Builder :=
  match b.error with
  | some _ => b
  | none => { b with error := some ⟨b.contents.name, call, v⟩ }

/-- One checked call: nothing once there is a violation, refused once the declaration is built. -/
def step (b : Builder) (call : String) (f : Builder → Except Violation Builder) : Builder :=
  match b.error, b.built with
  | some _, _ => b
  | none, some _ => b.fail call .alreadyBuilt
  | none, none =>
    match f b with
    | .ok b' => b'
    | .error v => b.fail call v

/-- The call that introduces a declaration of a kind. -/
def startCall : ClassKind → String
  | .interface => "NewInterface"
  | .enumeration => "NewEnum"
  | .record => "NewRecord"
  | _ => "NewClass"

/-- Starts a declaration. -/
def start (kind : ClassKind) (name : String) : Builder :=
  (Builder.mk { ty := ⟨name, kind, false⟩ } [] false none none).step (startCall kind) fun b => do
    (checkTypeName name).mapError .badName
    return b

def kind (b : Builder) : ClassKind := b.contents.kind

/-- The call that claimed a name for a field, if one did. -/
def claimedBy? (c : Contents) (name : String) : Option String :=
  if c.fields.any (·.name == name) then some "Field"
  else if c.properties.any (·.name == name) then some "Property"
  else if c.constants.any (·.name == name) then some "Constant"
  else if c.components.any (·.name == name) then some "Component"
  else none

/-- Claims a name for a field: it is an identifier, and no field has it. -/
def claim (b : Builder) (name : String) : Except Violation Unit := do
  requireName name
  match claimedBy? b.contents name with
  | some call => throw (.duplicateField name call)
  | none => return

def modifiers (b : Builder) (ms : Modifiers) : Builder :=
  b.step "Modifiers" fun b => do
    if ms.has .abstract && ms.has .final then throw .abstractFinal
    return { b with contents.modifiers := ms }

/-- Sets the superclass of a class. -/
def superclass (b : Builder) (t : Ty) : Builder :=
  b.step "Extends" fun b => do
    if b.kind ≠ .ordinary then throw (.superclassOf b.kind)
    match t.erase with
    | .cls c =>
      if c.kind = .interface then throw (.notClass t.shown)
      return { b with contents.superclass := t }
    | _ => throw (.notClass t.shown)

def isInterface (t : Ty) : Bool :=
  match t.erase with
  | .cls c => c.kind == .interface
  | _ => false

def interfaces (b : Builder) (ts : List Ty) : Builder :=
  b.step "Implements" fun b => do
    match ts.find? (!isInterface ·) with
    | some t => throw (.notInterface t.shown)
    | none => return { b with contents.interfaces := b.contents.interfaces ++ ts }

def typeVar (b : Builder) (v : TypeVar) : Builder :=
  b.step "TypeParam" fun b => do
    requireName v.name
    if b.contents.typeVars.any (·.name == v.name) then throw (.duplicateTypeVar v.name)
    return { b with contents.typeVars := b.contents.typeVars ++ [v] }

/-- Adds a field; fields of interfaces are public, static and final. -/
def field (b : Builder) (f : Field) : Builder :=
  b.step "Field" fun b => do
    if f.ty.isVoid then throw (.fieldUntyped f.name)
    if b.kind = .record && !f.modifiers.has .static then throw (.recordFieldInstance f.name)
    b.claim f.name
    let f := if b.kind = .interface then
        { f with modifiers := f.modifiers ++ [.pub, .static, .final] }
      else f
    return { b with contents.fields := b.contents.fields ++ [f] }

/-- A method of an interface: public unless private, and abstract unless static or with a body. -/
def interfaceMethod (m : Method) : Method :=
  let m := if m.body.isEmpty && !m.modifiers.has .static then
      { m with modifiers := m.modifiers ++ [.abstract] }
    else m
  if m.modifiers.has .priv then m else { m with modifiers := m.modifiers ++ [.pub] }

/-- What tells methods of one name apart: the erased parameters. -/
def methodKey (m : Method) : String := m.name ++ methodDescriptor m.paramTypes (.prim .void)

/-- Adds a method or constructor. -/
def method (b : Builder) (m : Method) : Builder :=
  b.step "Method" fun b => do
    if b.kind = .interface && m.isConstructor then throw .interfaceConstructor
    let m := if b.kind = .interface then interfaceMethod m else m
    m.check
    if m.isAbstract && b.kind ≠ .interface && !b.contents.modifiers.has .abstract then
      throw (.abstractInConcrete m.name b.kind)
    if b.contents.methods.any (methodKey · == methodKey m) then
      throw (.duplicateMethod (m.name ++ m.descriptor))
    return { b with contents.methods := b.contents.methods ++ [m] }

def property (b : Builder) (p : Property) : Builder :=
  b.step "Property" fun b => do
    if p.ty.isVoid then throw (.propertyUntyped p.name)
    if b.kind = .enumeration || b.kind = .record then throw (.propertyOf b.kind)
    b.claim p.name
    return { b with contents.properties := b.contents.properties ++ [p] }

def annotate (b : Builder) (a : Annotation) : Builder :=
  b.step "Annotate" fun b => do
    (checkTypeName a.ty.name).mapError .badName
    return { b with contents.annotations := b.contents.annotations ++ [a] }

/-- Adds a constant of an enumeration. -/
def constant (b : Builder) (name : String) (args : List Expr) : Builder :=
  b.step "Constant" fun b => do
    if b.kind ≠ .enumeration then throw .constantOutsideEnum
    b.claim name
    return { b with contents.constants := b.contents.constants ++ [⟨name, args⟩] }

/-- Adds a component of a record. -/
def component (b : Builder) (name : String) (t : Ty) : Builder :=
  b.step "Component" fun b => do
    if b.kind ≠ .record then throw .componentOutsideRecord
    if t.isVoid then throw (.componentUntyped name)
    b.claim name
    return { b with contents.components := b.contents.components ++ [⟨name, t, []⟩] }

def staticInit (b : Builder) (stmts : List Stmt) : Builder :=
  b.step "StaticInit" fun b => do
    if b.initialized then throw .duplicateStaticInit
    return { b with initialized := true, contents.staticInit := stmts }

/-- The simple name of a member type of `outer`, if `name` is one. -/
def memberName? (outer name : String) : Option String :=
  let start := (outer ++ "$").toList
  if start.isPrefixOf name.toList then
    let simple := name.toList.drop start.length
    if simple.contains '$' then none else some (String.ofList simple)
  else none

/-- Adds a member type. -/
def nest (b : Builder) (d : Decl) : Builder :=
  b.step "Nest" fun b => do
    match memberName? b.contents.name d.name with
    | none => throw (.notMemberName d.name b.contents.name)
    | some simple =>
      if b.nested.any (·.name == d.name) then throw (.duplicateNested simple)
      return { b with nested := b.nested ++ [d] }

/-- The accessors of a property. -/
def accessors (kind : ClassKind) (p : Property) : List String :=
  getterName kind p.name :: if p.readOnly then [] else [setterName p.name]

/-- The first accessor whose name a method has. -/
def accessorClash? (c : Contents) : Option Violation :=
  c.properties.findSome? fun p =>
    (accessors c.kind p).findSome? fun a =>
      if c.methods.any (·.name == a) then some (.accessorTaken a p.name) else none

/-- Finishes the declaration. -/
def build (b : Builder) : Builder × Except BuildError Decl :=
  match b.error, b.built with
  | some e, _ => (b, .error e)
  | none, some d => (b, .ok d)
  | none, none =>
    let refuse (v : Violation) : Builder × Except BuildError Decl :=
      let e : BuildError := ⟨b.contents.name, "Build", v⟩
      ({ b with error := some e }, .error e)
    if b.kind = .enumeration && b.contents.constants.isEmpty then refuse .emptyEnum
    else match accessorClash? b.contents with
      | some v => refuse v
      | none =>
        let d := Decl.mk b.contents b.nested
        ({ b with built := some d }, .ok d)

/-- The finished declaration. -/
def result (b : Builder) : Except BuildError Decl := b.build.2

end Builder

end Classwright
