import Classwright.Number.Decimal
import Classwright.Text.Quoted
import Classwright.Ty.Basic

/-!
Expressions and statements.

`Expr` and `Stmt` are the two mutual kinds of terms a method body is made of. An operand that was
never given is `Expr.absent`, and a missing statement is `Stmt.absent`. `Expr.type` is the declared
type of the value an expression leaves; it is undefined where it depends on an absent operand.
-/

namespace Classwright

/-! ### Constants -/

/-- The value of a constant. `foreign` is a value of no kind that has an instruction. -/
inductive Literal where
  | null
  | bool (b : Bool)
  | int (v : Int64)
  | float (bits : UInt64)
  | str (s : String)
  | cls (t : Ty)
  | foreign (v : Int32)
  deriving Repr

/-- A constant with its declared type. -/
structure Constant where
  ty : Ty
  value : Literal
  deriving Repr

namespace Constant

def int (v : Int32) : Constant := ⟨.prim .int, .int v.toInt64⟩
def long (v : Int64) : Constant := ⟨.prim .long, .int v⟩
def byte (v : Int8) : Constant := ⟨.prim .byte, .int v.toInt64⟩
def short (v : Int16) : Constant := ⟨.prim .short, .int v.toInt64⟩
def char (v : UInt16) : Constant := ⟨.prim .char, .int v.toUInt64.toInt64⟩
def float (bits : UInt32) : Constant := ⟨.prim .float, .float (Number.widen bits)⟩
def double (bits : UInt64) : Constant := ⟨.prim .double, .float bits⟩
def bool (b : Bool) : Constant := ⟨.prim .boolean, .bool b⟩
def str (s : String) : Constant := ⟨.string, .str s⟩
def null (t : Ty) : Constant := ⟨t, .null⟩

/-- The class object of a type; the class of an absent type is null. -/
def classOf : Ty → Constant
  | .absent => ⟨.cls .classObject, .null⟩
  | t => ⟨.cls .classObject, .cls t⟩

/-- The integral value, booleans counting as 0 and 1. -/
def int? (c : Constant) : Option Int64 :=
  match c.value with
  | .int v => some v
  | .bool b => some (if b then 1 else 0)
  | _ => none

/-- Whether the constant is an integral zero or false. -/
def isZero (c : Constant) : Bool := c.int? == some 0

/-- The bits of a floating constant in the width of its declared type. -/
def floatBits (c : Constant) : UInt64 :=
  let bits := match c.value with
    | .float b => b
    | _ => 0
  match c.ty with
  | .prim .float => (Number.narrow bits).toUInt64
  | _ => bits

/-- The constant as its writer would spell it. -/
def text? (c : Constant) : Option String :=
  match c.value with
  | .null => some "null"
  | .bool b => some (if b then "true" else "false")
  | .int v => some (toString v.toInt)
  | .float bits => some (Number.generalText Number.double bits.toNat)
  | .str s => some (Text.quoted s)
  | .cls t => t.text?.map (· ++ ".class")
  | .foreign v => some (toString v.toInt)

/-- What a formatting directive `verb` prints for a constant. -/
def shownAs (verb : String) (c : Constant) : String :=
  c.text?.getD ("%!" ++ verb ++
    "(PANIC=String method: runtime error: invalid memory address or nil pointer dereference)")

end Constant

/-! ### Operators and method references -/

/-- Relational operators. -/
inductive CompareOp where
  | eq | ne | lt | le | gt | ge
  deriving DecidableEq, Repr

namespace CompareOp

def name : CompareOp → String
  | eq => "=="
  | ne => "!="
  | lt => "<"
  | le => "<="
  | gt => ">"
  | ge => ">="

def ofName (s : String) : CompareOp := ([eq, ne, lt, le, gt, ge].find? (·.name == s)).getD eq

/-- The operator with the opposite outcome. -/
def negate : CompareOp → CompareOp
  | eq => ne
  | ne => eq
  | lt => ge
  | le => gt
  | gt => le
  | ge => lt

end CompareOp

/-- Arithmetic and bitwise operators. -/
inductive MathOp where
  | add | sub | mul | div | rem | and | or | xor | shl | shr | ushr
  deriving DecidableEq, Repr

namespace MathOp

def name : MathOp → String
  | add => "+"
  | sub => "-"
  | mul => "*"
  | div => "/"
  | rem => "%"
  | and => "&"
  | or => "|"
  | xor => "^"
  | shl => "<<"
  | shr => ">>"
  | ushr => ">>>"

def ofName (s : String) : MathOp :=
  ([add, sub, mul, div, rem, and, or, xor, shl, shr, ushr].find? (·.name == s)).getD add

def isShift : MathOp → Bool
  | shl | shr | ushr => true
  | _ => false

def isBitwise : MathOp → Bool
  | and | or | xor => true
  | _ => false

end MathOp

/-- What equality compares: the values, or the identity of objects. -/
inductive Equality where
  | byValue | byIdentity
  deriving DecidableEq, Repr

/-- A method by owner, name and signature. -/
structure MethodRef where
  owner : ClassTy
  name : String
  params : List Ty
  ret : Ty
  deriving Repr

namespace MethodRef

/-- The return type, `void` when none was given. -/
def returns (m : MethodRef) : Ty :=
  match m.ret with
  | .absent => .prim .void
  | t => t

def descriptor (m : MethodRef) : String := methodDescriptor m.params m.returns

end MethodRef

/-! ### Terms -/

mutual

/-- An expression. The receiver of a member access is `this` when absent. -/
inductive Expr where
  | absent
  | const (c : Constant)
  | localVar (name : String) (ty : Ty)
  | param (name : String) (ty : Ty)
  | field (recv : Expr) (owner : ClassTy) (name : String) (ty : Ty)
  | staticField (owner : ClassTy) (name : String) (ty : Ty)
  | this (ty : ClassTy)
  | super (ty : ClassTy)
  | caught (ty : Ty)
  | callStatic (method : MethodRef) (args : List Expr)
  | call (recv : Expr) (method : MethodRef) (args : List Expr)
  | new (ty : ClassTy) (params : List Ty) (args : List Expr)
  | newArray (of : Ty) (dims : Nat) (size : Expr)
  | arrayLit (of : Ty) (dims : Nat) (elements : List Expr)
  | cast (target : Ty) (value : Expr)
  | instanceOf (value : Expr) (ty : Ty)
  | and (left right : Expr)
  | or (left right : Expr)
  | isNull (value : Expr)
  | notNull (value : Expr)
  | isTrue (value : Expr)
  | isFalse (value : Expr)
  | compare (op : CompareOp) (left right : Expr)
  | math (op : MathOp) (left right : Expr)
  | neg (value : Expr)
  | cond (test yes no : Expr) (ty : Ty)
  | select (subject : Expr) (ty : Ty) (cases : List ExprCase) (default : Expr)
  | yielding (ty : Ty) (body : Stmt)
  | same (how : Equality) (left right : Expr)
  | differ (how : Equality) (left right : Expr)
  | hash (value : Expr)
  | classOf (value : Expr)
  | property (recv : Expr) (owner : ClassTy) (name : String) (ty : Ty)
  | element (array index : Expr)
  | length (array : Expr)

/-- One arm of a switch expression. -/
inductive ExprCase where
  | mk (keys : List Expr) (value : Expr)

/-- A statement. -/
inductive Stmt where
  | absent
  | ret (value : Expr)
  | throwing (value : Expr)
  | assign (target value : Expr)
  | define (name : String) (ty : Ty) (value : Expr)
  | when (test : Expr) (body : Stmt)
  | choose (test : Expr) (yes no : Stmt)
  | loop (test : Expr) (body : Stmt)
  | select (subject : Expr) (cases : List StmtCase) (default : Stmt)
  | locking (monitor : Expr) (body : Stmt)
  | protect (body : Stmt) (clauses : List CatchClause) (cleanup : Stmt)
  | block (stmts : List Stmt)
  | eval (value : Expr)

/-- One arm of a switch statement. -/
inductive StmtCase where
  | mk (keys : List Expr) (body : Stmt)

/-- A clause for exceptions of one class, which it may bind to a name. -/
inductive CatchClause where
  | mk (exception : ClassTy) (name : String) (body : Stmt)

end

instance : Inhabited Expr := ⟨.absent⟩
instance : Inhabited Stmt := ⟨.absent⟩

def Stmt.isAbsent : Stmt → Bool
  | .absent => true
  | _ => false

/-! ### Types of expressions -/

namespace Expr

def isAbsent : Expr → Bool
  | absent => true
  | _ => false

/-- Whether the expression is a null constant. -/
def isNullConst : Expr → Bool
  | const ⟨_, .null⟩ => true
  | _ => false

/-- The declared type of the value. -/
def type : Expr → Except Misuse Ty
  | absent => .error .broken
  | const c => .ok c.ty
  | localVar _ t | param _ t | field _ _ _ t | staticField _ _ t | caught t | cast t _
  | cond _ _ _ t | select _ t _ _ | yielding t _ | property _ _ _ t => .ok t
  | this c | super c | new c _ _ => .ok (.cls c)
  | callStatic m _ | call _ m _ => .ok m.returns
  | newArray of dims _ | arrayLit of dims _ => .ok (.array of dims)
  | instanceOf .. | and .. | or .. | isNull _ | notNull _ | isTrue _ | isFalse _ | compare ..
  | same .. | differ .. => .ok (.prim .boolean)
  | math op l r => do
    let a := (← l.type).unboxed
    if op.isShift then return .prim a.promote
    let b := (← r.type).unboxed
    if op.isBitwise && a == .boolean && b == .boolean then return .prim .boolean
    return .prim (a.promote2 b)
  | neg v => do return .prim (← v.type).unboxed.promote
  | hash _ | length _ => .ok (.prim .int)
  | classOf _ => .ok (.generic .classObject [.wildcard [] []])
  | element a _ => do
    match (← a.type).erase with
    | .array of dims => return (Erased.element of dims).toTy
    | _ => return .object

/-- The word for the kind of an expression. -/
def kindName : Expr → String
  | absent => ""
  | const _ => "Constant"
  | localVar .. => "LocalVar"
  | param .. => "ParamRef"
  | field .. => "FieldRef"
  | staticField .. => "StaticFieldRef"
  | this _ => "This"
  | super _ => "Super"
  | caught _ => "CaughtException"
  | callStatic .. => "InvokeStatic"
  | call .. => "InvokeInstance"
  | new .. => "NewInstance"
  | newArray .. => "NewArray"
  | arrayLit .. => "NewArrayInit"
  | cast .. => "Cast"
  | instanceOf .. => "InstanceOf"
  | and .. => "And"
  | or .. => "Or"
  | isNull _ => "IsNull"
  | notNull _ => "IsNotNull"
  | isTrue _ => "IsTrue"
  | isFalse _ => "IsFalse"
  | compare .. => "Compare"
  | math .. => "MathOp"
  | neg _ => "Neg"
  | cond .. => "Conditional"
  | select .. => "SwitchExpr"
  | yielding .. => "YieldBlock"
  | same .byValue _ _ => "EqualsStructurally"
  | differ .byValue _ _ => "NotEqualsStructurally"
  | same .byIdentity _ _ => "EqualsReferentially"
  | differ .byIdentity _ _ => "NotEqualsReferentially"
  | hash _ => "HashCode"
  | classOf _ => "GetClass"
  | property .. => "PropertyGet"
  | element .. => "ArrayElement"
  | length _ => "ArrayLength"

end Expr

/-- The word for the kind of a statement. -/
def Stmt.kindName : Stmt → String
  | .absent => ""
  | .ret _ => "Return"
  | .throwing _ => "Throw"
  | .assign .. => "Assign"
  | .define .. => "Define"
  | .when .. => "If"
  | .choose .. => "IfElse"
  | .loop .. => "While"
  | .select .. => "Switch"
  | .locking .. => "Synchronized"
  | .protect .. => "Try"
  | .block _ => "Multi"
  | .eval _ => "ExprStmt"

mutual

/-- The number of protected statements in a statement, those in its own finally blocks included. -/
def Stmt.protections : Stmt → Nat
  | .when _ s | .loop _ s | .locking _ s => s.protections
  | .choose _ a b => a.protections + b.protections
  | .select _ cases d => casesProtections cases + d.protections
  | .protect body clauses f => 1 + body.protections + clausesProtections clauses + f.protections
  | .block ss => stmtsProtections ss
  | _ => 0

def casesProtections : List StmtCase → Nat
  | [] => 0
  | .mk _ s :: cs => s.protections + casesProtections cs

def clausesProtections : List CatchClause → Nat
  | [] => 0
  | .mk _ _ s :: cs => s.protections + clausesProtections cs

def stmtsProtections : List Stmt → Nat
  | [] => 0
  | s :: ss => s.protections + stmtsProtections ss

end

end Classwright
