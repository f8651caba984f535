import Classwright.Generation.Members
import Classwright.ClassFile.Assembly

/-!
Class files of declarations.

`classFile` writes the members of a declaration in order, with their flags, signatures and
annotations, and then the attributes of the class. Constants enter the pool in the order in which
they are met.
-/

namespace Classwright

/-- What the output depends on besides the declarations. -/
structure Options where
  major : UInt16
  sourceFile : Bool
  /-- The bits of the least density of a table switch. -/
  density : UInt64

namespace Generation

/-! ### Errors -/

/-- Why an annotation cannot be written. -/
inductive AnnotationError where
  | absent
  | null
  | constType (ty : Ty)
  | constValue (c : Constant)
  | inside (ty : ClassTy) (element : String) (cause : AnnotationError)

namespace AnnotationError

def message : AnnotationError → String
  | absent => "unsupported construct: annotation value <nil>"
  | null => "unsupported construct: null annotation value"
  | constType ty => s!"type mismatch: annotation constant of type {ty.shown}"
  | constValue c => "type mismatch: annotation constant " ++ c.shownAs "s"
  | inside ty element cause => s!"@{ty.name}({element}): {cause.message}"

def family : AnnotationError → Family
  | absent | null => .unsupported
  | constType _ | constValue _ => .typeMismatch
  | inside _ _ cause => cause.family

end AnnotationError

/-- A part of a declaration that has attributes. -/
inductive Part where
  | field (name : String)
  | method (name : String)
  | component (name : String)
  | type

def Part.text (owner : String) : Part → String
  | field name => s!"field {owner}.{name}"
  | method name => s!"method {owner}.{name}"
  | component name => s!"record component {owner}.{name}"
  | type => s!"type {owner}"

/-- Why a class file cannot be written. -/
inductive ClassError where
  | lower (e : Lowering.LowerError)
  | annotated (owner : String) (part : Part) (cause : AnnotationError)
  | encodePart (owner : String) (part : Part) (cause : EncodeError)
  | encode (cause : EncodeError)
  | misuse (m : Misuse)
  | diverges

def ClassError.message : ClassError → String
  | lower e => e.message
  | annotated owner part cause => part.text owner ++ ": " ++ cause.message
  | encodePart owner part cause => part.text owner ++ ": " ++ cause.message
  | encode cause => cause.message
  | misuse m => m.message?.getD ""
  | diverges => ""

def ClassError.family? : ClassError → Option Family
  | lower e => e.cause.family?
  | annotated _ _ cause => some cause.family
  | encodePart _ _ cause | encode cause => cause.family?
  | misuse _ | diverges => none

def ClassError.ofFailure : Lowering.Failure → ClassError
  | .error e => .lower e
  | .misuse m => .misuse m
  | .diverges => .diverges

/-- Computations that add to a pool and may fail. -/
abbrev ClassM := StateT Pool (Except ClassError)

def pool {α : Type} (m : PoolM α) : ClassM α := fun p => .ok (m.run p)

def lifted {ε α : Type} (wrap : ε → ClassError) (m : StateT Pool (Except ε) α) : ClassM α :=
  fun p => (m p).mapError wrap

def sound {α : Type} (r : Except Misuse α) : ClassM α := lifted .misuse fun p => r.map (·, p)

/-! ### Flags -/

def flagOf : Modifier → UInt16
  | .pub => Access.pub
  | .priv => Access.priv
  | .prot => Access.prot
  | .static => Access.static
  | .final => Access.final
  | .abstract => Access.abstract
  | .synchronized => Access.synchronized
  | .volatile => Access.volatile
  | .transient => Access.transient

/-- The flags of those modifiers that are allowed. -/
def flags (ms : Modifiers) (allowed : List Modifier) : UInt16 :=
  (allowed.filter ms.has).foldl (fun acc m => acc ||| flagOf m) 0

def visibility : List Modifier := [.pub, .priv, .prot]

/-- The flags of a kind of declaration, without visibility. -/
def kindFlags (c : Contents) : UInt16 :=
  match c.kind with
  | .interface => Access.interface ||| Access.abstract
  | .annotationType => Access.interface ||| Access.abstract ||| Access.annotationType
  | .enumeration => Access.enum ||| Access.final
  | .record => Access.final
  | .ordinary => flags c.modifiers [.final, .abstract]

/-- The flags of a class, which is either public or not; member classes are as visible as their
declarations say in the table of member classes only. -/
def classAccess (c : Contents) : UInt16 :=
  kindFlags c ||| (if c.isInterface then 0 else Access.super)
    ||| (if c.modifiers.has .pub || c.modifiers.has .prot then Access.pub else 0)

/-- The flags of a member class, which is always static. -/
def innerAccess (c : Contents) : UInt16 :=
  kindFlags c ||| Access.static ||| flags c.modifiers visibility

/-! ### Annotations -/

/-- A constant as an element value. -/
def constTree (c : Constant) : StateT Pool (Except AnnotationError) ValueTree := do
  let add (m : PoolM UInt16) : StateT Pool (Except AnnotationError) UInt16 := fun p => .ok (m.run p)
  match c.value with
  | .str s => return .const 's' (← add (Pool.utf8 s))
  | .cls t => return .cls t.descriptor
  | .null => throw .null
  | _ =>
    match c.ty with
    | .prim .long => return .const 'J' (← add (Pool.long (c.int?.getD 0)))
    | .prim .float => return .const 'F' (← add (Pool.float c.floatBits.toUInt32))
    | .prim .double => return .const 'D' (← add (Pool.double c.floatBits))
    | .prim p =>
      match c.int? with
      | some v => return .const p.letter (← add (Pool.int (Int32.ofInt v.toInt)))
      | none => throw (.constValue c)
    | t => throw (.constType t)

/-- Adds the element in which a cause was found. -/
def inElement {α : Type} (ty : ClassTy) (name : String)
    (m : StateT Pool (Except AnnotationError) α) : StateT Pool (Except AnnotationError) α :=
  fun p => (m p).mapError (.inside ty name)

mutual

def annotationTree : Annotation → StateT Pool (Except AnnotationError) AnnotationTree
  | .mk ty elements => do return .mk (Erased.cls ty).descriptor (← elementTrees ty elements)

def elementTrees (ty : ClassTy) :
    List AnnotationElement → StateT Pool (Except AnnotationError) (List ElementTree)
  | [] => return []
  | .mk name value :: rest => do
    let tree ← inElement ty name (valueTree value)
    return .mk name tree :: (← elementTrees ty rest)

def valueTree : AnnotationValue → StateT Pool (Except AnnotationError) ValueTree
  | .absent => throw .absent
  | .const c => constTree c
  | .enumConst ty name => return .enumConst (Erased.cls ty).descriptor name
  | .nested a => do return .nested (← annotationTree a)
  | .array values => do return .array (← valueTrees values)

def valueTrees : List AnnotationValue → StateT Pool (Except AnnotationError) (List ValueTree)
  | [] => return []
  | v :: vs => do
    let tree ← valueTree v
    return tree :: (← valueTrees vs)

end

/-- The attribute with annotations, if there are any. -/
def annotationAttributes (owner : String) (part : Part) (as : List Annotation) :
    ClassM (List Attribute) := do
  if as.isEmpty then return []
  let trees ← lifted (.annotated owner part) (as.mapM annotationTree)
  return [← lifted (.encodePart owner part) (Attribute.annotations trees)]

/-- The attribute with the generic signature, if one is needed. -/
def signatureAttributes (needed : Bool) (signature : Except Misuse String) :
    ClassM (List Attribute) := do
  if needed then return [← pool (Attribute.signature (← sound signature))] else return []

/-! ### Members -/

def fieldMember (c : Contents) (f : Field) (extra : UInt16) : ClassM Member := do
  let access := flags f.modifiers (visibility ++ [.static, .final, .volatile, .transient]) ||| extra
    ||| (if c.isInterface then Access.pub ||| Access.static ||| Access.final else 0)
  let signature ← signatureAttributes f.ty.isGeneric f.ty.signature
  let annotations ← annotationAttributes c.name (.field f.name) f.annotations
  pool (ClassFile.member access f.name f.ty.descriptor (signature ++ annotations))

/-- The code of a method that is not abstract. -/
def codeAttributes (u : Lowering.ClassUnit) (m : Method) : ClassM (List Attribute) := do
  if m.isAbstract then return []
  let code ← lifted .ofFailure (Lowering.lower u m)
  return [← lifted (.encodePart u.decl.name (.method m.name)) code.encode]

def methodMember (u : Lowering.ClassUnit) (m : Method) : ClassM Member := do
  let c := u.decl
  let isPublic := c.isInterface && !m.modifiers.has .priv && m.name != staticInitName
  let access := flags m.modifiers (visibility ++ [.static, .final, .abstract, .synchronized])
    ||| (if isPublic then Access.pub else 0)
  let code ← codeAttributes u m
  let signature ← signatureAttributes m.isGeneric m.signature
  let annotations ← annotationAttributes c.name (.method m.name) m.annotations
  pool (ClassFile.member access m.name m.descriptor (code ++ signature ++ annotations))

/-! ### Nests -/

/-- A declaration with all its member types. `outer` has the enclosing declaration of each, latest
first. -/
structure Nest where
  host : Contents
  members : List Contents
  outer : List (String × Contents)

mutual

/-- The member types below a declaration with the declarations around them, in order. -/
def links (c : Contents) : List Decl → List (Contents × Contents)
  | [] => []
  | d :: ds => (d.contents, c) :: (linksBelow d ++ links c ds)

def linksBelow : Decl → List (Contents × Contents)
  | .mk c nested => links c nested

end

def Nest.ofDecl (d : Decl) : Nest :=
  let pairs := linksBelow d
  ⟨d.contents, pairs.map (·.1), (pairs.map fun (n, c) => (n.name, c)).reverse⟩

/-- The row of a member type. -/
def Nest.row (n : Nest) (c : Contents) : InnerClass :=
  ⟨c.ty.internal, ((n.outer.lookup c.name).map (·.ty.internal)).getD "", c.ty.simpleName,
    innerAccess c⟩

/-- A member type and those around it below the host, outermost first. -/
def Nest.chain (n : Nest) : Nat → Contents → List Contents
  | 0, _ => []
  | fuel + 1, c =>
    if c.name == n.host.name then []
    else match n.outer.lookup c.name with
      | some o => n.chain fuel o ++ [c]
      | none => [c]

/-- The rows of a type: those around it, and its own member types. -/
def Nest.rows (n : Nest) (d : Decl) : List InnerClass :=
  (n.chain (n.members.length + 1) d.contents ++ d.nested.map (·.contents)).map n.row

/-! ### Classes -/

/-- The attribute of a record with its components. -/
def recordAttributes (c : Contents) : ClassM (List Attribute) := do
  if c.kind != .record then return []
  let components ← c.components.mapM fun p => do
    let signature ← signatureAttributes p.ty.isGeneric p.ty.signature
    let annotations ← annotationAttributes c.name (.component p.name) p.annotations
    return (⟨p.name, p.ty.descriptor, signature ++ annotations⟩ : RecordComponent)
  return [← lifted .encode (Attribute.record components)]

/-- The attributes that tie a nest together: the host lists its members, and they name it. -/
def nestAttributes (n : Nest) (c : Contents) : ClassM (List Attribute) := do
  if c.name != n.host.name then return [← pool (Attribute.nestHost n.host.ty.internal)]
  else if n.members.isEmpty then return []
  else return [← pool (Attribute.nestMembers (n.members.map (·.ty.internal)))]

def classAttributes (o : Options) (n : Nest) (d : Decl) : ClassM (List Attribute) := do
  let c := d.contents
  let source ← if o.sourceFile then
      (fun a => [a]) <$> pool (Attribute.sourceFile (n.host.ty.simpleName ++ ".java"))
    else pure []
  let signature ← signatureAttributes c.isGeneric c.signature
  let record ← recordAttributes c
  let annotations ← annotationAttributes c.name .type c.annotations
  let rows := n.rows d
  let inner ← if rows.isEmpty then pure []
    else (fun a => [a]) <$> pool (Attribute.innerClasses rows)
  return source ++ signature ++ record ++ annotations ++ inner ++ (← nestAttributes n c)

/-- The internal name of the superclass; that of an interface is the root class. -/
def superName (c : Contents) : Except Misuse String :=
  if c.isInterface then .ok "java/lang/Object" else c.super.internal

def interfaceNames (c : Contents) : Except Misuse (List String) := do
  let names ← c.interfaces.mapM Ty.internal
  return names ++ if c.kind == .annotationType then ["java/lang/annotation/Annotation"] else []

/-- The class file of a declaration of a nest. -/
def classFile (o : Options) (n : Nest) (types : List Contents) (h : Hierarchy) (d : Decl) :
    Except ClassError ClassFile := do
  let c := d.contents
  let super ← (superName c).mapError .misuse
  let interfaces ← (interfaceNames c).mapError .misuse
  let cf := ClassFile.ofNames o.major (classAccess c) c.ty.internal super interfaces
  let ms ← (members c).mapError .ofFailure
  let u : Lowering.ClassUnit := ⟨c, types, ms.added, h, o.density⟩
  let body : ClassM ClassFile := do
    let fields ← ms.fields.mapM fun (f, extra) => fieldMember c f extra
    let methods ← ms.methods.mapM (methodMember u)
    let attributes ← classAttributes o n d
    return { cf with fields, methods, attributes }
  let (cf, pool) ← body cf.pool
  return { cf with pool }

end Generation

end Classwright
