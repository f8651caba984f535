import Classwright.Frame.Analysis
import Classwright.Term.Description

/-!
Why a method body cannot be lowered.

A `Cause` says what is wrong, sorted by the rule that is broken; `Cause.message` has all the
wording. A `LowerError` adds the declared type, the member and the kind of the innermost term in
which the cause was found.
-/

namespace Classwright.Lowering

/-- A name or receiver that stands for nothing. -/
inductive Unresolved where
  | localVar (name : String)
  | param (name : String)
  | field (owner name : String)
  | receiver
  | super
  | caught
  | enumConstructor (type : String) (args : Nat) (constant : String)

def Unresolved.message : Unresolved → String
  | localVar name => s!"local {name}"
  | param name => s!"parameter {name}"
  | field owner name => s!"field {owner}.{name}"
  | receiver => "receiver in a static method"
  | super => "super in a static method"
  | caught => "caught exception outside a catch clause"
  | enumConstructor type args constant =>
    s!"no constructor of {type} takes {args} arguments for constant {constant}"

/-- A type that does not fit where it is used. -/
inductive Mismatch where
  | noValueExpected (found : Ty)
  | unboxing (found want : Ty)
  | boolean (found want : Prim)
  | boxing (found : Prim) (want : Erased)
  | unrelated (found want : Erased)
  | castPrim (found want : Prim)
  | cast (found want : Ty)
  | condition (c : Constant)
  | operands (left : Ty) (op : String) (right : Ty)
  | operand (op : String) (found : Prim)
  | shiftDistance (found : Ty)
  | negation (found : Ty)
  | notReference (found : Ty)
  | instanceOf (found : Ty)
  | nullOf (found : Ty)
  | overflow (v : Int) (found : Ty)
  | intConst (found : Ty)
  | floatConst (found : Ty)
  | fieldStatic (owner name : String) (isStatic : Bool)
  | lengthOf (found : Ty)
  | indexing (found : Ty)
  | argumentCount (given want : Nat)
  | calledOn (method : String) (found : Ty)
  | interfaceInstance (c : ClassTy)
  | noReturnValue (want : Ty)
  | voidReturnValue
  | intKey (key : Expr)
  | keyOverflow (v : Int)
  | stringKey (key : Expr)
  | enumKey (key : Expr) (want : ClassTy)
  | interfaceCatch (c : ClassTy)

def Mismatch.message : Mismatch → String
  | noValueExpected found => s!"{found.shown} used where no value is expected"
  | unboxing found want => s!"cannot unbox {found.shown} to {want.shown}"
  | boolean found want => s!"{found.name} to {want.name}"
  | boxing found want => s!"cannot box {found.name} as {want.text}"
  | unrelated found want => s!"{found.text} is unrelated to {want.text}"
  | castPrim found want => s!"cannot cast {found.name} to {want.name}"
  | cast found want => s!"cannot cast {found.shown} to {want.shown}"
  | condition c => "condition " ++ c.shownAs "s" ++ " is not boolean"
  | operands left op right => s!"{left.shown} {op} {right.shown}"
  | operand op found => s!"{op} on {found.name}"
  | shiftDistance found => s!"shift distance of type {found.shown}"
  | negation found => s!"negation of {found.shown}"
  | notReference found => s!"{found.shown} is not a reference"
  | instanceOf found => s!"instanceof {found.shown}"
  | nullOf found => s!"null of type {found.shown}"
  | overflow v found => s!"constant {v} overflows {found.shown}"
  | intConst found => s!"integer constant of type {found.shown}"
  | floatConst found => s!"floating constant of type {found.shown}"
  | fieldStatic owner name isStatic => s!"field {owner}.{name} static={isStatic}"
  | lengthOf found => s!"length of non-array {found.shown}"
  | indexing found => s!"indexing non-array {found.shown}"
  | argumentCount given want => s!"{given} arguments for {want} parameters"
  | calledOn method found => s!"method {method} called on {found.shown}"
  | interfaceInstance c => s!"cannot instantiate interface {c.name}"
  | noReturnValue want => s!"{want.shown} method returns no value"
  | voidReturnValue => "void method returns a value"
  | intKey key => s!"switch key {key.described} is not an integral constant"
  | keyOverflow v => s!"switch key {v} overflows int"
  | stringKey key => s!"switch key {key.described} is not a string constant"
  | enumKey key want => s!"switch key {key.described} is not a constant of {want.name}"
  | interfaceCatch c => s!"catch of interface {c.name}"

/-- A use of something without a value. -/
inductive VoidUse where
  | value
  | localVar (name : String)
  | emptyYield

/-- A key that is given twice. -/
inductive RepeatedKey where
  | int (v : Int)
  | str (s : String)
  | enumConst (name : String)

def RepeatedKey.message : RepeatedKey → String
  | int v => toString v
  | str s => Text.quoted s
  | enumConst name => name

/-- A path that ends without a value. -/
inductive NoReturn where
  | method (ret : Ty)
  | block

def NoReturn.message : NoReturn → String
  | method ret => s!"control reaches the end of a {ret.shown} method"
  | block => "block completes without yielding a value"

/-- A term that has no lowering. -/
inductive Unsupported where
  | absentExpr
  | foreignConst
  | noDefault
  | selectOn (found : Erased)
  | protectInYield
  | lockInYield
  | target (kind : String)
  | enumSuperCall (type : String)

def Unsupported.message : Unsupported → String
  | absentExpr => "nil expression"
  | foreignConst => "constant of Go type int32"
  | noDefault => "switch expression without a default"
  | selectOn found => s!"switch on {found.text}"
  | protectInYield => "try inside a switch-expression block"
  | lockInYield => "synchronized inside a switch-expression block"
  | target kind => s!"cannot assign to {kind}"
  | enumSuperCall type => s!"explicit super constructor call in enum {type}"

/-- What is wrong with a body. -/
inductive Cause where
  | unresolved (what : Unresolved)
  | narrowing (source target : Prim)
  | mismatch (what : Mismatch)
  | voidValue (use : VoidUse)
  | duplicateName (name : String)
  | duplicateKey (key : RepeatedKey)
  | missingReturn (path : NoReturn)
  | unsupported (what : Unsupported)
  | code (e : CodeError)
  | descriptor (e : DescriptorError)
  | decode (e : DecodeError)
  | frame (e : FrameError)
  | tooLarge

def Cause.family? : Cause → Option Family
  | unresolved _ => some .unresolved
  | narrowing .. => some .narrowing
  | mismatch _ => some .typeMismatch
  | voidValue _ => some .voidValue
  | duplicateName _ => some .duplicateName
  | duplicateKey _ => some .duplicateKey
  | missingReturn _ => some .missingReturn
  | unsupported _ => some .unsupported
  | frame _ => some .frameMismatch
  | tooLarge => some .codeTooLarge
  | code e => e.family?
  | descriptor _ | decode _ => none

/-- The text of a cause. -/
def Cause.message : Cause → String
  | unresolved what => "unresolved reference: " ++ what.message
  | narrowing source target =>
    s!"narrowing conversion requires a cast: {source.name} to {target.name}"
  | mismatch what => "type mismatch: " ++ what.message
  | voidValue .value => "void expression used as a value"
  | voidValue (.localVar name) => s!"void expression used as a value: local {name}"
  | voidValue .emptyYield => "void expression used as a value: yield without a value"
  | duplicateName name => s!"duplicate local name: {name}"
  | duplicateKey key => "duplicate switch key: " ++ key.message
  | missingReturn path => "missing return: " ++ path.message
  | unsupported what => "unsupported construct: " ++ what.message
  | code e => e.message
  | descriptor e => e.message
  | decode e => e.message?.getD ""
  | frame e => e.message
  | tooLarge => "method code too large"

/-- Why lowering stops. A cause without a place has not met the term it belongs to yet; a
method-level cause has the empty place. -/
inductive Stop where
  | cause (place : Option String) (what : Cause)
  | misuse (m : Misuse)
  | diverges

/-- A cause with the declared type, the member and the kind of the term it was found in. -/
structure LowerError where
  type : String
  member : String
  place : String
  cause : Cause

def LowerError.message (e : LowerError) : String :=
  e.type ++ (if e.member.isEmpty then "" else "." ++ e.member)
    ++ (if e.place.isEmpty then "" else " [" ++ e.place ++ "]") ++ ": " ++ e.cause.message

end Classwright.Lowering
