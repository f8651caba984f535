import Classwright.Decl.Basic
import Mathlib.Tactic

/-!
The meaning of integral methods.

A direct evaluation of terms over `boolean` and the integral types. Values are integers together
with their type. Arithmetic is that of the integers, brought back into the range of the promoted
operand type; a value that is only widened stays the same integer. Names are looked up innermost
first, a scope ends with the statement that opened it, and an assignment changes the binding that
the name has.

Evaluation of statements is given a number of rounds that each of its loops may take, and has no
result if one of them takes more.
-/

namespace Classwright.Integral

/-! ### Integers of a type -/

/-- The types of the values. -/
def isWhole : Prim → Bool
  | .boolean | .byte | .short | .char | .int | .long => true
  | _ => false

/-- The integers that a type has; `boolean` has 0 and 1. -/
def InRange : Prim → Int → Prop
  | .boolean, n => 0 ≤ n ∧ n < 2
  | .byte, n => -2 ^ 7 ≤ n ∧ n < 2 ^ 7
  | .short, n => -2 ^ 15 ≤ n ∧ n < 2 ^ 15
  | .char, n => 0 ≤ n ∧ n < 2 ^ 16
  | .int, n => -2 ^ 31 ≤ n ∧ n < 2 ^ 31
  | .long, n => -2 ^ 63 ≤ n ∧ n < 2 ^ 63
  | _, _ => False

instance (p : Prim) (n : Int) : Decidable (InRange p n) := by
  unfold InRange
  split <;> infer_instance

/-- The integer of a type that has the same low bits. -/
def wrap : Prim → Int → Int
  | .byte, n => n.bmod (2 ^ 8)
  | .short, n => n.bmod (2 ^ 16)
  | .char, n => n % 2 ^ 16
  | .int, n => n.bmod (2 ^ 32)
  | .long, n => n.bmod (2 ^ 64)
  | _, n => n

/-- The bits of an operand. -/
def width : Prim → Nat
  | .long => 64
  | _ => 32

/-- The type in which one operand is computed. -/
def promote : Prim → Prim
  | .long => .long
  | _ => .int

/-- The type in which two operands are computed. -/
def promote2 (p q : Prim) : Prim := if p = .long ∨ q = .long then .long else .int

/-! ### Expressions -/

/-- Why an evaluation ends without a result: a division by zero, or a term without a meaning. -/
inductive Abort where
  | arithmetic
  | undefined
  deriving DecidableEq, Repr

abbrev Eval := Except Abort

/-- An operator on values of one type; the distance of a shift is taken modulo the width. -/
def apply (op : MathOp) (p : Prim) (a b : Int) : Eval Int :=
  match op with
  | .add => .ok (wrap p (a + b))
  | .sub => .ok (wrap p (a - b))
  | .mul => .ok (wrap p (a * b))
  | .div => if b = 0 then .error .arithmetic else .ok (wrap p (a.tdiv b))
  | .rem => if b = 0 then .error .arithmetic else .ok (a.tmod b)
  | .and => .ok (BitVec.ofInt (width p) a &&& BitVec.ofInt (width p) b).toInt
  | .or => .ok (BitVec.ofInt (width p) a ||| BitVec.ofInt (width p) b).toInt
  | .xor => .ok (BitVec.ofInt (width p) a ^^^ BitVec.ofInt (width p) b).toInt
  | .shl => .ok (wrap p (a * 2 ^ (b % width p).toNat))
  | .shr => .ok (a / 2 ^ (b % width p).toNat)
  | .ushr => .ok (wrap p (a % 2 ^ width p / 2 ^ (b % width p).toNat))

/-- Whether two integers compare as an operator says. -/
def holds : CompareOp → Int → Int → Bool
  | .eq, a, b => a = b
  | .ne, a, b => a ≠ b
  | .lt, a, b => a < b
  | .le, a, b => a ≤ b
  | .gt, a, b => b < a
  | .ge, a, b => b ≤ a

/-- A value and its type. -/
structure Whole where
  ty : Prim
  val : Int
  deriving DecidableEq, Repr

def Whole.ofBool (b : Bool) : Whole := ⟨.boolean, if b then 1 else 0⟩

def Whole.isTrue (v : Whole) : Bool := v.val ≠ 0

/-- The type in which an operator computes; a shift has that of its left operand. -/
def operandType (op : MathOp) (p q : Prim) : Prim :=
  if op.isShift then promote p
  else if p = .boolean ∧ q = .boolean then .boolean
  else promote2 p q

def Whole.math (op : MathOp) (v w : Whole) : Eval Whole := do
  let p := operandType op v.ty w.ty
  return ⟨p, ← apply op p v.val w.val⟩

def Whole.neg (v : Whole) : Eval Whole :=
  if v.ty = .boolean then .error .undefined
  else .ok ⟨promote v.ty, wrap (promote v.ty) (-v.val)⟩

structure Binding where
  name : String
  value : Whole
  deriving DecidableEq, Repr

/-- The variables, innermost first, and the parameters, last first. -/
structure Store where
  locals : List Binding
  params : List Binding
  deriving DecidableEq, Repr

def find? (name : String) (bs : List Binding) : Option Whole :=
  (bs.find? (·.name == name)).map (·.value)

/-- The value at another type of the fragment. -/
def retyped (v : Option Whole) (ty : Ty) : Eval Whole :=
  match v, ty.erase with
  | some v, .prim p => .ok ⟨p, v.val⟩
  | _, _ => .error .undefined

/-- Evaluates an expression, its operands from left to right. -/
def eval (ρ : Store) : Expr → Eval Whole
  | .const ⟨ty, .int v⟩ => retyped (some ⟨.long, v.toInt⟩) ty
  | .const ⟨_, .bool b⟩ => .ok (.ofBool b)
  | .localVar name ty => retyped ((find? name ρ.locals).or (find? name ρ.params)) ty
  | .param name ty => retyped (find? name ρ.params) ty
  | .math op l r => do
    let a ← eval ρ l
    let b ← eval ρ r
    a.math op b
  | .neg v => do (← eval ρ v).neg
  | .cast ty v => do
    let a ← eval ρ v
    match ty.erase with
    | .prim p => return ⟨p, wrap p a.val⟩
    | _ => throw .undefined
  | .compare op l r => do
    let a ← eval ρ l
    let b ← eval ρ r
    return .ofBool (holds op a.val b.val)
  | .and l r => do
    if (← eval ρ l).isTrue then return .ofBool (← eval ρ r).isTrue else return .ofBool false
  | .or l r => do
    if (← eval ρ l).isTrue then return .ofBool true else return .ofBool (← eval ρ r).isTrue
  | .isTrue v => do return .ofBool (← eval ρ v).isTrue
  | .isFalse v => do return .ofBool !(← eval ρ v).isTrue
  | .cond test yes no ty => do
    let v ← if (← eval ρ test).isTrue then eval ρ yes else eval ρ no
    retyped (some v) ty
  | _ => .error .undefined

/-! ### Statements -/

inductive Flow where
  | next (ρ : Store)
  | returned (v : Option Int)
  deriving DecidableEq, Repr

/-- An evaluation that may not end within the rounds it is given. -/
abbrev Run := ExceptT Abort Option

def value (ρ : Store) (e : Expr) : Run Whole := ExceptT.mk (some (eval ρ e))

/-- Out of rounds. -/
def unfinished {α : Type} : Run α := ExceptT.mk none

/-- Leaves the bindings of an inner scope. -/
def leave (ρ : Store) : Flow → Flow
  | .next ρ' => .next { ρ' with locals := ρ'.locals.drop (ρ'.locals.length - ρ.locals.length) }
  | flow => flow

/-- Goes on after a statement, unless it returns. -/
def andThen (x : Run Flow) (f : Store → Run Flow) : Run Flow := do
  match ← x with
  | .next ρ => f ρ
  | flow => return flow

/-- Repeats a body as long as a test holds. -/
def iterate (test : Store → Run Bool) (body : Store → Run Flow) : Nat → Store → Run Flow
  | 0, _ => unfinished
  | k + 1, ρ => do
    if ← test ρ then andThen (body ρ) (iterate test body k) else return .next ρ

/-- Gives a name another value; its type stays. -/
def rebind (name : String) (n : Int) : List Binding → List Binding
  | [] => []
  | b :: bs => if b.name = name then { b with value.val := n } :: bs else b :: rebind name n bs

/-- Assigns to a variable, or to the parameter of that name if there is none. -/
def Store.assign (ρ : Store) (name : String) (n : Int) : Store :=
  if (find? name ρ.locals).isSome then { ρ with locals := rebind name n ρ.locals }
  else { ρ with params := rebind name n ρ.params }

/-- The type of a new variable; without one it is that of its value. -/
def declaredType (ty : Ty) (v : Whole) : Prim :=
  match ty with
  | .absent => v.ty
  | ty => ty.unboxed

mutual

/-- Evaluates a statement; each loop takes fewer than `k` rounds. -/
def exec (k : Nat) : Stmt → Store → Run Flow
  | .absent, ρ => return .next ρ
  | .ret .absent, _ => return .returned none
  | .ret v, ρ => do return .returned (some (← value ρ v).val)
  | .assign (.localVar name _) v, ρ => do
    let n ← value ρ v
    return .next (ρ.assign name n.val)
  | .assign (.param name _) v, ρ => do
    let n ← value ρ v
    return .next { ρ with params := rebind name n.val ρ.params }
  | .define name ty v, ρ => do
    let n ← value ρ v
    return .next { ρ with locals := ⟨name, declaredType ty n, n.val⟩ :: ρ.locals }
  | .when test body, ρ => do
    if (← value ρ test).isTrue then return leave ρ (← exec k body ρ) else return .next ρ
  | .choose test yes no, ρ => do
    if (← value ρ test).isTrue then return leave ρ (← exec k yes ρ)
    else return leave ρ (← exec k no ρ)
  | .loop test body, ρ =>
    iterate (fun ρ => do return (← value ρ test).isTrue)
      (fun ρ => do return leave ρ (← exec k body ρ)) k ρ
  | .block ss, ρ => execs k ss ρ
  | _, _ => throw .undefined

/-- Evaluates statements one after the other, in one scope. -/
def execs (k : Nat) : List Stmt → Store → Run Flow
  | [], ρ => return .next ρ
  | s :: ss, ρ => andThen (exec k s ρ) (execs k ss)

end

/-- The store before a body. A parameter hides those of the same name before it. -/
def Store.start (m : Method) (args : List Int) : Store where
  locals := []
  params := (m.params.zipWith (fun p n => ⟨p.name, p.ty.unboxed, n⟩) args).reverse

/-- The result of a method on arguments, `none` for that of a `void` method. -/
def result (m : Method) (args : List Int) (k : Nat) : Run (Option Int) := do
  match ← execs k m.body (.start m args) with
  | .next _ => return none
  | .returned v => return v

end Classwright.Integral
