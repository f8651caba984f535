import Classwright.Lowering.Context

/-!
Conversions of the value on top of the stack.

`coerce` is what assignments, arguments and returns do by themselves: widening, boxing, unboxing,
and a checked downcast. `cast` is the explicit conversion, which may also narrow.
-/

namespace Classwright.Lowering

/-- The primitive that a value of a type gives after unboxing. -/
def unboxed? (t : Ty) : Option Prim :=
  match t.erase with
  | .prim .void => none
  | .prim p => some p
  | e => e.unwrap?

/-! ### Primitives -/

/-- The conversion between two different categories. -/
def conversion? (source target : Category) : Option Conversion :=
  Conversion.all.find? fun c => c.source == kindOf source && c.target == kindOf target

/-- Converts one numeric type to another, up or down. -/
def convert (source target : Prim) : Lower Unit := do
  if source.category ≠ target.category then
    if let some c := conversion? source.category target.category then emit (.convert c)
  match target with
  | .byte => if source ≠ .byte then emit (.convert .i2b)
  | .short => if source ≠ .short ∧ source ≠ .byte then emit (.convert .i2s)
  | .char => if source ≠ .char then emit (.convert .i2c)
  | _ => pure ()

/-- Converts to a type that holds every value of the first. -/
def widen (source target : Prim) : Lower Unit := do
  if source = target then return
  if source = .boolean ∨ target = .boolean then mismatch (.boolean source target)
  if source.widensTo target then convert source target else fail (.narrowing source target)

/-! ### References -/

/-- Whether a value of the first reference type passes as the second without a check. -/
def assignable (a b : Erased) : Lower Bool := do
  if a.descriptor == b.descriptor then return true
  match b with
  | .cls c =>
    let u := (← read).unit
    if c.name == ClassTy.object.name || u.isInterface c then return true
    match a with
    | .cls d => return (← decided (u.hierarchy.isSubclass d.internal c.internal)) == .yes
    | _ => return false
  | _ => return false

/-- Passes an upcast, checks a downcast, and refuses classes that are known to be unrelated. -/
def coerceRef (a b : Erased) : Lower Unit := do
  if ← assignable a b then return
  if let .cls c := a then
    if let .cls d := b then
      if ← decided ((← read).unit.hierarchy.unrelated c.internal d.internal) then
        mismatch (.unrelated a b)
  checkCast b.toTy

/-! ### Boxes -/

/-- Boxes a primitive for a place of a reference type. -/
def box (p : Prim) (target : Erased) : Lower Unit := do
  match p.wrapper? with
  | none => mismatch (.boxing p target)
  | some w =>
    if ← assignable (.cls w) target then
      invokeStatic w "valueOf" ("(" ++ p.descriptor ++ ")" ++ (Erased.cls w).descriptor)
    else mismatch (.boxing p target)

def unbox (wrapper : ClassTy) (p : Prim) : Lower Unit :=
  invokeVirtual wrapper.internal (p.name ++ "Value") ("()" ++ p.descriptor)

def boxed? : Erased → Option (ClassTy × Prim)
  | .cls c => (Erased.cls c).unwrap?.map fun p => (c, p)
  | _ => none

/-! ### Conversions -/

/-- Converts a value of the type `a` for a place of the type `b`. -/
def coerce (a b : Ty) : Lower Unit := do
  if a.isVoid then fail (.voidValue .value)
  if b.isVoid then mismatch (.noValueExpected a)
  match a.erase, b.erase with
  | .prim p, .prim q => widen p q
  | .prim p, e => box p e
  | e, .prim q =>
    match boxed? e with
    | some (c, p) =>
      unbox c p
      widen p q
    | none => mismatch (.unboxing a b)
  | d, e => coerceRef d e

def castPrim (p q : Prim) : Lower Unit := do
  if p = q then return
  if !p.isNumeric || !q.isNumeric then mismatch (.castPrim p q)
  convert p q

def cast (a b : Ty) : Lower Unit := do
  if a.isVoid then fail (.voidValue .value)
  match a.erase, b.erase with
  | .prim p, .prim q => castPrim p q
  | .prim p, e =>
    match e.unwrap? with
    | some q =>
      castPrim p q
      box q e
    | none => box p e
  | e, .prim q =>
    match boxed? e, q.wrapper? with
    | some (c, p), _ =>
      unbox c p
      castPrim p q
    | none, some w =>
      checkCast (.cls w)
      unbox w q
    | none, none => mismatch (.cast a b)
  | d, e => if ← assignable d e then return else checkCast e.toTy

end Classwright.Lowering
