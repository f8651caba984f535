import Classwright.Proofs.ClassFile.Descriptors
import Classwright.Proofs.Integral.Semantics
import Classwright.Proofs.Machine.Invocations

/-!
The meaning of conditions.

A direct evaluation of boolean terms and of the operands that they compare. Operands are evaluated
from left to right, and the second operand of a conjunction or disjunction only if the first does
not decide. Calls are put on record and answered from outside. What an operand of any other form
gives is left open (`Context.other`); the conditions that are composed of operands with a meaning
are `Composed`.
-/

namespace Classwright

/-- Parameters and a return type by which a method with a value can be called. -/
structure MethodRef.Spelled (m : MethodRef) : Prop where
  params : ∀ t ∈ m.params, t.erase.Spelled
  returns : m.returns.erase.Spelled

namespace Conditions

open Machine (Exec Invoke Recorded Value)
open Lowering (ClassUnit Local)

/-- What terms are evaluated in: the types of the batch, the variables in sight, innermost first,
and the parameters, the values in their slots, the answers to calls, and the values of operands that
are not looked into. -/
structure Context where
  unit : ClassUnit
  visible : List Local
  params : List Local
  slots : Array Value
  answers : Nat → Invoke
  other : Expr → Recorded Value

/-! ### Conversions -/

/-- The conversion by which a number is widened, if it takes one. -/
def widening? : Category → Category → Option Conversion
  | .int, .long => some .i2l
  | .int, .float => some .i2f
  | .int, .double => some .i2d
  | .long, .float => some .l2f
  | .long, .double => some .l2d
  | .float, .double => some .f2d
  | _, _ => none

def widened (p q : Prim) (v : Value) : Exec Value :=
  match widening? p.category q.category with
  | some c => Machine.convert c v
  | none => return v

/-- Whether a value of the first type passes as the second without a check: objects do as what they
are known to be, and as interfaces of any kind. -/
def passes (u : ClassUnit) (d e : Erased) : Bool :=
  d.descriptor == e.descriptor ||
    match d, e with
    | .cls a, .cls b => b.name == ClassTy.object.name || u.isInterface b ||
        u.hierarchy.isSubclass a.internal b.internal == some .yes
    | _, .cls b => b.name == ClassTy.object.name || u.isInterface b
    | _, _ => false

/-- The name of a reference type in class files. -/
def className : Erased → String
  | .cls c => c.internal
  | e => e.descriptor

/-! ### Comparisons -/

/-- The type in which two operands are compared as numbers. -/
def comparedAs (a b : Ty) : Prim :=
  if a.unboxed = .boolean then .boolean else a.unboxed.promote2 b.unboxed

/-- Compares two values of one type as numbers. -/
def compareNumbers (op : CompareOp) (p : Prim) (v w : Value) : Recorded Bool :=
  if p.category = .long then do
    let m ← .of (Machine.toLong v)
    let n ← .of (Machine.toLong w)
    return Integral.holds op m.toInt n.toInt
  else do
    let m ← .of (Machine.toInt v)
    let n ← .of (Machine.toInt w)
    return Integral.holds op m.toInt n.toInt

/-- Whether two operands are compared as objects: references are, if for equality. -/
def byIdentity (op : CompareOp) (a b : Ty) : Bool :=
  a.isReference && b.isReference && (op == .eq || op == .ne)

/-! ### Operands -/

namespace Context

variable (C : Context)

/-- A call of a method that no interface declares. -/
def call (kind : Machine.CallKind) (owner name desc : String) (args : List Value) :
    Recorded Value :=
  .call C.answers ⟨kind, ⟨owner, name, desc, false⟩, args⟩

/-- A value of the type `a` as one of the type `b`: it is widened, put into a box, taken out of its
box, or checked. -/
def converted (a b : Ty) (v : Value) : Recorded Value :=
  match a.erase, b.erase with
  | .prim p, .prim q => .of (widened p q v)
  | .prim p, _ =>
    match p.wrapper? with
    | some w => C.call .static w.internal "valueOf" (methodDescriptor [.prim p] (.cls w)) [v]
    | none => pure v
  | .cls c, .prim q =>
    match (Erased.cls c).unwrap? with
    | some p => do
      let w ← C.call .virtual c.internal (p.name ++ "Value") (methodDescriptor [] (.prim p)) [v]
      .of (widened p q w)
    | none => pure v
  | d, e =>
    if passes C.unit d e then pure v
    else do
      .of (Machine.checkCast v (className e))
      return v

/-- A value of a term as one of a type. -/
def convertedFrom (e : Expr) (ty : Ty) (v : Value) : Recorded Value :=
  match e.type with
  | .ok a => C.converted a ty v
  | .error _ => .of Machine.crash

variable {C} in
lemma convertedFrom_eq {e : Expr} {a : Ty} (h : e.type = .ok a) (ty : Ty) :
    C.convertedFrom e ty = C.converted a ty := by
  funext v
  unfold convertedFrom
  rw [h]

variable {C} in
/-- Whole numbers of up to 32 bits are converted by doing nothing. -/
lemma converted_of_category {b : Ty} {p : Prim} (hb : b.category = .int) (hp : p.category = .int)
    (v : Value) : C.converted b (.prim p) v = pure v := by
  obtain ⟨q, hq⟩ : ∃ q, b.erase = .prim q := by
    unfold Ty.category at hb
    cases h : b.erase with
    | prim q => exact ⟨q, rfl⟩
    | _ => simp [h, Erased.category] at hb
  have hcat : q.category = .int := by simpa [Ty.category, hq, Erased.category] using hb
  have hp' : (Ty.prim p).erase = .prim p := rfl
  unfold converted
  rw [hq, hp']
  simp [widened, hcat, hp, widening?]

/-- The truth of a term that has a value. -/
def truth (e : Expr) (x : Recorded Value) : Recorded Bool := do
  let v ← C.convertedFrom e (.prim .boolean) (← x)
  let n ← .of (Machine.toInt v)
  return n != 0

def slot (n : Nat) : Recorded Value := .of (Machine.sure C.slots[n]?)

/-- The value of a variable that was found, as one of the type it is used at. -/
def held (l : Option Local) (ty : Ty) : Recorded Value := do
  let l ← .of (Machine.sure l)
  C.converted l.ty ty (← C.slot l.slot)

def constant (c : Constant) : Recorded Value :=
  match c.value with
  | .null => return .null
  | .bool b => return .ofBool b
  | .int v => return if c.ty.category = .long then .long v else .int v.toInt32
  | .str s => return .str s
  | _ => C.other (.const c)

/-- Compares two operands, as objects or as numbers. -/
def compared (op : CompareOp) (l r : Expr) (x y : Recorded Value) : Recorded Bool :=
  match l.type, r.type with
  | .ok a, .ok b =>
    if byIdentity op a b then do
      let v ← x
      let w ← y
      return v.same w == (op == .eq)
    else do
      let v ← C.converted a (.prim (comparedAs a b)) (← x)
      let w ← C.converted b (.prim (comparedAs a b)) (← y)
      compareNumbers op (comparedAs a b) v w
  | _, _ => .of Machine.crash

end Context

/-! ### Terms -/

mutual

def Context.evaluate (C : Context) : Expr → Recorded Value
  | .const c => C.constant c
  | .localVar name ty =>
    C.held ((C.visible.find? (·.name == name)).or (C.params.find? (·.name == name))) ty
  | .param name ty => C.held (C.params.find? (·.name == name)) ty
  | .this _ | .super _ => C.slot 0
  | .callStatic m args => do
    let vs ← C.arguments args m.params
    .call C.answers ⟨.static, ⟨m.owner.internal, m.name, m.descriptor, C.unit.isInterface m.owner⟩,
      vs⟩
  | .and l r => Value.ofBool <$> do
    if ← C.truth l (C.evaluate l) then C.truth r (C.evaluate r) else return false
  | .or l r => Value.ofBool <$> do
    if ← C.truth l (C.evaluate l) then return true else C.truth r (C.evaluate r)
  | .isTrue v => Value.ofBool <$> C.truth v (C.evaluate v)
  | .isFalse v => (fun b => Value.ofBool !b) <$> C.truth v (C.evaluate v)
  | .isNull v => (fun w => Value.ofBool w.isNull) <$> C.evaluate v
  | .notNull v => (fun w => Value.ofBool !w.isNull) <$> C.evaluate v
  | .compare op l r => Value.ofBool <$> C.compared op l r (C.evaluate l) (C.evaluate r)
  | .same .byIdentity l r => Value.ofBool <$> C.compared .eq l r (C.evaluate l) (C.evaluate r)
  | .differ .byIdentity l r => Value.ofBool <$> C.compared .ne l r (C.evaluate l) (C.evaluate r)
  | e => C.other e

/-- The values of arguments at the types of the parameters. -/
def Context.arguments (C : Context) : List Expr → List Ty → Recorded (List Value)
  | e :: es, ty :: tys => do
    let v ← C.convertedFrom e ty (← C.evaluate e)
    let vs ← C.arguments es tys
    return v :: vs
  | _, _ => return []

end

/-- Each argument has a value, if there is a parameter for it. -/
lemma Context.length_of_returns {C : Context} {es : List Expr} {tys : List Ty} {vs : List Value}
    (h : (C.arguments es tys).Returns vs) : vs.length = min es.length tys.length := by
  induction es generalizing tys vs with
  | nil =>
    rw [Context.arguments] at h
    · simp [Recorded.returns_pure h]
    · simp
  | cons e es ih =>
    cases tys with
    | nil =>
      rw [Context.arguments] at h
      · simp [Recorded.returns_pure h]
      · simp
    | cons ty tys =>
      rw [Context.arguments] at h
      obtain ⟨v, -, h⟩ := Recorded.returns_bind h
      obtain ⟨w, -, h⟩ := Recorded.returns_bind h
      obtain ⟨ws, hws, h⟩ := Recorded.returns_bind h
      simp [Recorded.returns_pure h, ih hws]

def Context.holds (C : Context) (e : Expr) : Recorded Bool := C.truth e (C.evaluate e)

/-- What is found to be true or false is as true as it was found. -/
lemma Context.truth_ofBool (C : Context) {e : Expr} {ty : Ty} (he : e.type = .ok ty)
    (hty : ty.category = .int) (x : Recorded Bool) : C.truth e (Value.ofBool <$> x) = x := by
  have hint (b : Bool) :
      (Recorded.of (Machine.toInt (.ofBool b))) = pure (if b then 1 else 0 : Int32) := rfl
  have hbool (b : Bool) : ((if b then 1 else 0 : Int32) != 0) = b := by cases b <;> rfl
  simp only [Context.truth, bind_map_left, convertedFrom_eq he,
    converted_of_category (p := .boolean) hty rfl, pure_bind, hint, hbool, bind_pure]

/-! ### Conditions -/

/-- Operands that are compared as objects, or as whole numbers or truth values. -/
def Comparable (op : CompareOp) (l r : Expr) : Prop :=
  ∀ ⦃a b⦄, l.type = .ok a → r.type = .ok b →
    byIdentity op a b ∨ (comparedAs a b ≠ .float ∧ comparedAs a b ≠ .double)

/-- The operands that are not looked into. -/
def isOther : Expr → Bool
  | .const ⟨_, .float _⟩ | .const ⟨_, .cls _⟩ => true
  | .field .. | .staticField .. | .caught _ | .call .. | .new .. | .newArray .. | .arrayLit
      .. | .cast ..
  | .instanceOf .. | .math .. | .neg _ | .cond .. | .select .. | .yielding .. | .hash _ | .classOf
      _ | .property ..
  | .element .. | .length _ => true
  | _ => false

lemma Context.evaluate_of_isOther (C : Context) {e : Expr} (he : isOther e) :
    C.evaluate e = C.other e := by
  cases e with
  | const c =>
    obtain ⟨ty, v⟩ := c
    cases v with
    | float | cls => simp [Context.evaluate, Context.constant]
    | _ => cases he
  | field | staticField | caught | call | new | newArray | arrayLit | cast | instanceOf | math | neg
      | cond | select
  | yielding | hash | classOf | property | element | length => simp [Context.evaluate]
  | _ => cases he

/-- Boolean terms and what they are composed of: constants of their types, variables, static calls,
the boolean operators, comparisons, and other operands of which something is known. -/
inductive Composed (known : Expr → Prop) : Expr → Prop
  | null (ty : Ty) : Composed known (.const ⟨ty, .null⟩)
  | bool {ty : Ty} (hty : ty.erase = .prim .boolean) (b : Bool) :
      Composed known (.const ⟨ty, .bool b⟩)
  | int {ty : Ty} (hty : ty.category = .int ∨ ty.category = .long) (v : Int64) :
      Composed known (.const ⟨ty, .int v⟩)
  | str (ty : Ty) (s : String) : Composed known (.const ⟨ty, .str s⟩)
  | localVar (name : String) (ty : Ty) : Composed known (.localVar name ty)
  | param (name : String) (ty : Ty) : Composed known (.param name ty)
  | this (c : ClassTy) : Composed known (.this c)
  | super (c : ClassTy) : Composed known (.super c)
  | callStatic {m : MethodRef} {args : List Expr} (hm : m.Spelled)
      (hargs : ∀ e ∈ args, Composed known e) :
      Composed known (.callStatic m args)
  | and {l r : Expr} (hl : Composed known l) (hr : Composed known r) : Composed known (.and l r)
  | or {l r : Expr} (hl : Composed known l) (hr : Composed known r) : Composed known (.or l r)
  | isTrue {v : Expr} (hv : Composed known v) : Composed known (.isTrue v)
  | isFalse {v : Expr} (hv : Composed known v) : Composed known (.isFalse v)
  | isNull {v : Expr} (hv : Composed known v) : Composed known (.isNull v)
  | notNull {v : Expr} (hv : Composed known v) : Composed known (.notNull v)
  | compare {op : CompareOp} {l r : Expr} (hop : Comparable op l r) (hl : Composed known l)
      (hr : Composed known r) :
      Composed known (.compare op l r)
  | same {l r : Expr} (hop : Comparable .eq l r) (hl : Composed known l) (hr : Composed known r) :
      Composed known (.same .byIdentity l r)
  | differ {l r : Expr} (hop : Comparable .eq l r) (hl : Composed known l) (hr : Composed known r) :
      Composed known (.differ .byIdentity l r)
  | other {e : Expr} (he : isOther e) (h : known e) : Composed known e

end Conditions

end Classwright
