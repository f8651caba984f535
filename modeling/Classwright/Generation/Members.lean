import Classwright.Lowering.Body
import Classwright.Term.Idiom

/-!
The members of a class file.

A declaration has members of its own and those that its kind implies: constructors are completed by
the call of the superclass and the initializers of fields, properties have accessors, enumerations
have their constants and the methods that list them, and records have accessors, equality, a hash
and a text. A declared method takes the place of an implied one with its name and descriptor.
-/

namespace Classwright

namespace Contents

/-- Whether the declaration is an interface, be it that of an annotation. -/
def isInterface (c : Contents) : Bool := c.kind == .interface || c.kind == .annotationType

def declares (c : Contents) (m : Method) : Bool :=
  c.methods.any fun d => d.name == m.name && d.descriptor == m.descriptor

def arrayTy (c : Contents) : Ty := .array (.cls c.ty) 1

def thisExpr (c : Contents) : Expr := .this c.ty

def own (c : Contents) (name : String) (ty : Ty) : Expr := .field c.thisExpr c.ty name ty

end Contents

def valuesFieldName : String := "$VALUES"

/-- The parameters that constructors of enumerations have in front. -/
def enumParams : List Param :=
  [⟨"$name", .string, []⟩, ⟨"$ordinal", .prim .int, []⟩]

def Param.expr (p : Param) : Expr := .param p.name p.ty

namespace Generation

/-- A method that fails to be made. -/
def memberError (c : Contents) (m : Method) (place : String) (cause : Lowering.Cause) :
    Lowering.Failure :=
  .error ⟨c.name, m.name ++ m.descriptor, place, cause⟩

/-- The members to write: fields with flags that no modifier stands for, methods, and the fields
among them that the declaration does not have. -/
structure Members where
  fields : List (Field × UInt16)
  methods : List Method
  added : List Field

/-! ### Fields -/

def valuesField (c : Contents) : Field :=
  { name := valuesFieldName, ty := c.arrayTy, modifiers := [.priv, .static, .final] }

def addedFields (c : Contents) : List Field :=
  if c.kind == .enumeration then [valuesField c] else []

def allFields (c : Contents) : List (Field × UInt16) :=
  c.constants.map (fun k => (Contents.constantField c.ty k, Access.enum))
    ++ c.fields.map (fun f => (f, 0))
    ++ (if c.isInterface then [] else
      c.properties.map fun p => ({ Contents.propertyField p with annotations := p.annotations }, 0))
    ++ c.components.map (fun p =>
      ({ Contents.componentField p with annotations := p.annotations }, 0))
    ++ (addedFields c).map (fun f => (f, Access.synthetic))

/-! ### Constructors -/

/-- The class whose constructor runs first. -/
def superClass (c : Contents) : ClassTy :=
  match c.super.erase with
  | .cls d => d
  | _ => .object

/-- The call of the superclass's constructor that is added where none is written. -/
def superCall (c : Contents) : Stmt :=
  if c.kind == .enumeration then
    .eval (.call (.super .enumBase)
      ⟨.enumBase, constructorName, enumParams.map (·.ty), .prim .void⟩ (enumParams.map Param.expr))
  else
    let s := superClass c
    .eval (.call (.super s) ⟨s, constructorName, [], .prim .void⟩ [])

/-- The initializers of the fields of an object, in declaration order. -/
def instanceInits (c : Contents) : List Stmt :=
  (c.fields.filter fun f => !f.init.isAbsent && !f.modifiers.has .static).map fun f =>
    .assign (c.own f.name f.ty) f.init

inductive Opening where
  | plain
  | superCall (m : MethodRef) (recv : Expr) (args : List Expr)
  | thisCall (m : MethodRef) (recv : Expr) (args : List Expr)

/-- Splits the explicit call of another constructor off a body. -/
def opening : List Stmt → Opening × List Stmt
  | .eval (.call (.super t) m args) :: rest =>
    if m.name == constructorName then (.superCall m (.super t) args, rest)
    else (.plain, .eval (.call (.super t) m args) :: rest)
  | .eval (.call (.this t) m args) :: rest =>
    if m.name == constructorName then (.thisCall m (.this t) args, rest)
    else (.plain, .eval (.call (.this t) m args) :: rest)
  | body => (.plain, body)

/-- Completes the body of a constructor. Fields are initialized right behind the superclass; a call
of another constructor of the class leaves that to it. -/
def constructorBody (c : Contents) (m : Method) : Except Lowering.Failure (List Stmt) :=
  let isEnum := c.kind == .enumeration
  match opening m.body with
  | (.plain, rest) => .ok (superCall c :: (instanceInits c ++ rest))
  | (.superCall r recv args, rest) =>
    if isEnum then
      .error (memberError c m "ExprStmt" (.unsupported (.enumSuperCall c.name)))
    else .ok (.eval (.call recv r args) :: (instanceInits c ++ rest))
  | (.thisCall r recv args, rest) =>
    let call := if isEnum then
        Expr.call recv { r with params := enumParams.map (·.ty) ++ r.params }
          (enumParams.map Param.expr ++ args)
      else .call recv r args
    .ok (.eval call :: rest)

/-- A complete constructor. Those of enumerations are private and have the name and position of the
constant in front. -/
def constructor (c : Contents) (m : Method) : Except Lowering.Failure Method := do
  let body ← constructorBody c m
  if c.kind == .enumeration then
    return { m with
      body
      params := enumParams ++ m.params
      modifiers := .priv :: m.modifiers.filter fun x => x != .pub && x != .prot }
  else return { m with body }

/-- The constructor of a declaration that has none. That of a record takes its components. -/
def defaultConstructor (c : Contents) : Method :=
  let visibility := c.modifiers.filter fun x => x == .pub || x == .prot || x == .priv
  match c.kind with
  | .enumeration => { name := constructorName, modifiers := [.priv] }
  | .record =>
    { name := constructorName
      modifiers := [.pub]
      params := c.components.map fun p => ⟨p.name, p.ty, []⟩
      body := c.components.map fun p => .assign (c.own p.name p.ty) p.expr }
  | _ => { name := constructorName, modifiers := visibility }

def constructors (c : Contents) : Except Lowering.Failure (List Method) :=
  if c.isInterface then .ok []
  else if c.hasConstructor then (c.methods.filter Method.isConstructor).mapM (constructor c)
  else do return [← constructor c (defaultConstructor c)]

/-! ### Enumerations -/

/-- The parameter types of the first constructor that takes the arguments of a constant. -/
def enumConstructor (c : Contents) (k : EnumConst) : Except Lowering.Failure (List Ty) :=
  if !c.hasConstructor && k.args.isEmpty then .ok []
  else match c.methods.find? fun m => m.isConstructor && m.params.length == k.args.length with
    | some m => .ok m.paramTypes
    | none =>
      .error (memberError c { name := staticInitName, modifiers := [.static] } "EnumConstant"
        (.unresolved (.enumConstructor c.name k.args.length k.name)))

def enumInit (c : Contents) (k : EnumConst) (i : Nat) : Except Lowering.Failure Stmt := do
  let params ← enumConstructor c k
  return .assign (.enumValue c.ty k.name)
    (.new c.ty (enumParams.map (·.ty) ++ params) (.str k.name :: .int (Int32.ofNat i) :: k.args))

/-- Makes all constants in order and lists them. -/
def enumInits (c : Contents) : Except Lowering.Failure (List Stmt) := do
  let inits ← c.constants.zipIdx.mapM fun (k, i) => enumInit c k i
  return inits ++ [.assign (.staticField c.ty valuesFieldName c.arrayTy)
    (.arrayLit (.cls c.ty) 1 (c.constants.map fun k => .enumValue c.ty k.name))]

/-- The methods that list the constants and find one by its name. -/
def enumMethods (c : Contents) : List Method :=
  let values : Expr := .staticField c.ty valuesFieldName c.arrayTy
  let name : Param := ⟨"name", .string, []⟩
  [ { name := "values"
      modifiers := [.pub, .static]
      ret := c.arrayTy
      body := [.ret (.cast c.arrayTy (.call values ⟨.object, "clone", [], .object⟩ []))] },
    { name := "valueOf"
      modifiers := [.pub, .static]
      params := [name]
      ret := .cls c.ty
      body := [.ret (.cast (.cls c.ty)
        (.callStatic ⟨.enumBase, "valueOf", [.cls .classObject, .string], .cls .enumBase⟩
          [.const (.classOf (.cls c.ty)), name.expr]))] } ]

/-! ### Properties and records -/

/-- The accessors of a property; those of an interface are abstract. -/
def accessorMethods (c : Contents) (p : Property) : List Method :=
  let modifiers := if c.isInterface then [.pub, .abstract] else [Modifier.pub]
  let param : Param := ⟨p.name, p.ty, []⟩
  let getter : Method :=
    { name := getterName c.kind p.name
      modifiers
      ret := p.ty
      body := if c.isInterface then [] else [.ret (c.own p.name p.ty)] }
  let setter : Method :=
    { name := setterName p.name
      modifiers
      params := [param]
      body := if c.isInterface then [] else [.assign (c.own p.name p.ty) param.expr] }
  getter :: if p.readOnly then [] else [setter]

def componentMethod (c : Contents) (p : Param) : Method :=
  { name := p.name, modifiers := [.pub], ret := p.ty, body := [.ret (c.own p.name p.ty)] }

/-- The parts of a record's text: `Name[a=…, b=…]`. -/
def recordText (c : Contents) : List Expr :=
  let start := c.ty.simpleName ++ "["
  let parts := c.components.zipIdx.flatMap fun (p, i) =>
    [.str ((if i = 0 then start else ", ") ++ p.name ++ "="), c.own p.name p.ty]
  (if c.components.isEmpty then [.str start] else parts) ++ [.str "]"]

/-- Equality by components, the combined hash, and the text. -/
def recordMethods (c : Contents) : Except Misuse (List Method) := do
  let o : Param := ⟨"o", .object, []⟩
  let that : Expr := .localVar "that" (.cls c.ty)
  let mine := c.components.map fun p => c.own p.name p.ty
  let theirs := c.components.map fun p => Expr.field that c.ty p.name p.ty
  let equal ← Expr.equalAll mine theirs
  let text ← Expr.concat (recordText c)
  return [
    { name := "equals"
      modifiers := [.pub, .final]
      params := [o]
      ret := .prim .boolean
      body := [
        .when (.same .byIdentity c.thisExpr o.expr) (.ret (.bool true)),
        .when (.not (.instanceOf o.expr (.cls c.ty))) (.ret (.bool false)),
        .define "that" (.cls c.ty) (.cast (.cls c.ty) o.expr),
        .ret equal] },
    { name := "hashCode"
      modifiers := [.pub, .final]
      ret := .prim .int
      body := [.ret (.hashAll mine)] },
    { name := "toString"
      modifiers := [.pub, .final]
      ret := .string
      body := [.ret text] } ]

/-! ### All members -/

/-- A declared method other than a constructor. Methods of interfaces without a body are
abstract. -/
def declaredMethod (c : Contents) (m : Method) : Method :=
  if c.isInterface && m.body.isEmpty && !m.isStatic && !m.modifiers.has .priv then
    { m with modifiers := .abstract :: m.modifiers }
  else m

def staticInits (c : Contents) : Except Lowering.Failure (List Stmt) := do
  let constants ← if c.kind == .enumeration then enumInits c else pure []
  let fields := c.fields.filter fun f =>
    !f.init.isAbsent && (f.modifiers.has .static || c.isInterface)
  return constants ++ fields.map (fun f => .assign (.staticField c.ty f.name f.ty) f.init)
    ++ c.staticInit

/-- The members that a declaration has and implies. -/
def members (c : Contents) : Except Lowering.Failure Members := do
  let implied (ms : List Method) : List Method := ms.filter fun m => !c.declares m
  let constructors ← constructors c
  let record ← if c.kind == .record then (recordMethods c).mapError .misuse else pure []
  let inits ← staticInits c
  return {
    fields := allFields c
    added := addedFields c
    methods :=
      (if c.kind == .enumeration then implied (enumMethods c) else [])
      ++ constructors
      ++ (c.methods.filter fun m => !m.isConstructor).map (declaredMethod c)
      ++ implied (c.properties.flatMap (accessorMethods c))
      ++ (if c.kind == .record then implied (c.components.map (componentMethod c) ++ record)
        else [])
      ++ (if inits.isEmpty then []
        else [{ name := staticInitName, modifiers := [.static], body := inits }]) }

end Generation

end Classwright
