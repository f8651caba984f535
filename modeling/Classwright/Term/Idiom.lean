import Classwright.Term.Basic

/-!
Common shapes of expressions: combined hashes, pairwise equality, text of a value, and
concatenation.
-/

namespace Classwright

namespace Expr

def bool (b : Bool) : Expr := .const (.bool b)
def int (v : Int32) : Expr := .const (.int v)
def str (s : String) : Expr := .const (.str s)

/-- The reference to a constant of an enumeration. -/
def enumValue (owner : ClassTy) (name : String) : Expr := .staticField owner name (.cls owner)

def not (e : Expr) : Expr := .isFalse e

/-- The hashes of several values combined into one: each step multiplies by 31 and adds the next
hash. No values hash to zero. -/
def hashAll : List Expr → Expr
  | [] => .int 0
  | v :: vs => vs.foldl (fun h v => .math .add (.math .mul (.int 31) h) (.hash v)) (.hash v)

/-- The conjunction of pairwise equalities by value. The second list must reach as far as the
first. -/
def equalAll (ls rs : List Expr) : Except Misuse Expr :=
  match ls, rs with
  | [], _ => .ok (.bool true)
  | _ :: _, [] => .error .broken
  | l :: ls, r :: rs =>
    if rs.length < ls.length then .error .broken
    else .ok ((ls.zip rs).foldl (fun e p => .and e (.same .byValue p.1 p.2)) (.same .byValue l r))

/-- The text of a value by `String.valueOf`; texts stand for themselves, and small integers other
than characters are shown as `int`. -/
def stringOf (x : Expr) : Except Misuse Expr := do
  let t ← x.type
  let valueOf (param : Ty) : Expr := .callStatic ⟨.string, "valueOf", [param], .string⟩ [x]
  match t.erase with
  | .prim .byte | .prim .short => return valueOf (.prim .int)
  | .prim p => return valueOf (.prim p)
  | _ => if t.sameErasure .string then return x else return valueOf .object

/-- Appends the texts of the parts to a string builder and takes its contents. -/
def concat (parts : List Expr) : Except Misuse Expr := do
  let builder : Ty := .cls .stringBuilder
  let chain ← parts.foldlM (fun sb p => do
    return .call sb ⟨.stringBuilder, "append", [.string], builder⟩ [← stringOf p])
    (Expr.new .stringBuilder [] [])
  return .call chain ⟨.stringBuilder, "toString", [], .string⟩ []

end Expr

end Classwright
