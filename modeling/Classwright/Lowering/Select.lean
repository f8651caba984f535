import Classwright.Lowering.Operand

/-!
Switches.

A switch has arms with constant keys. It dispatches on integers by a table, on strings by their hash
and then by comparison, and on enumerations by identity, and lays out its arms in order behind the
dispatch.
-/

namespace Classwright.Lowering

structure Arm where
  keys : List Expr
  body : Lower Unit

/-- Keys with the labels of their arms, in order. -/
def labelKeys (arms : List (Arm × Label)) : List (Expr × Label) :=
  arms.flatMap fun (arm, l) => arm.keys.map fun k => (k, l)

/-! ### Integers -/

def intKey (key : Expr) : Lower Int :=
  match key with
  | .const ⟨_, .int v⟩ =>
    if v.toInt < -2147483648 ∨ 2147483647 < v.toInt then mismatch (.keyOverflow v.toInt)
    else pure v.toInt
  | _ => mismatch (.intKey key)

/-- The values of integral keys, each of which may occur once. The result is in reverse. -/
def intKeys (done : List (Int × Label)) : List (Expr × Label) → Lower (List (Int × Label))
  | [] => return done
  | (key, l) :: rest => do
    let v ← intKey key
    if done.any (·.1 == v) then fail (.duplicateKey (.int v))
    intKeys ((v, l) :: done) rest

/-- The targets of a table that starts at `low`; gaps between ascending keys go to the default. -/
def tableTargets (default : Label) (low : Int) (cases : List (Int × Label)) : List Label :=
  (cases.foldl (fun (next, done) (k, l) =>
    (k + 1, l :: (List.replicate (k - next).toNat default ++ done))) (low, [])).2.reverse

/-- The largest range of keys that becomes a table. -/
def maxTableRange : Int := 65536

/-- Whether keys in a range are as dense as asked for. -/
def isDense (density : UInt64) (keys : Nat) (range : Int) : Bool :=
  let number (n : Int) := Number.decode Number.double (Number.ofInt Number.double n)
  let ratio :=
    Number.decode Number.double (Number.divide Number.double (number keys) (number range))
  let least := Number.decode Number.double density.toNat
  least.lt ratio || least.eq ratio

/-- Dispatches on the `int` on the stack: by a table if the keys are dense, else by a search. -/
def intSwitch (cases : List (Int × Label)) (default : Label) : Lower Unit := do
  let sorted := cases.mergeSort fun a b => a.1 ≤ b.1
  match sorted.head?, sorted.getLast? with
  | some (low, _), some (high, _) =>
    let range := high - low + 1
    if range ≤ maxTableRange && isDense (← read).unit.tableDensity cases.length range then
      onCode? (·.emitTable (Int32.ofInt low) (Int32.ofInt high) default
        (tableTargets default low sorted))
    else
      onCode? (·.emitLookup default (sorted.map fun c => Int32.ofInt c.1) (sorted.map (·.2)))
  | _, _ =>
    emit .pop
    branch .goto default

def intDispatch (subject : Operand) (arms : List (Arm × Label)) (default : Label) : Lower Unit := do
  let cases ← intKeys [] (labelKeys arms)
  subject.as (.prim .int)
  intSwitch cases.reverse default

/-! ### Strings -/

/-- The values of string keys, each of which may occur once. The result is in reverse. -/
def stringKeys (done : List (String × Label)) : List (Expr × Label) → Lower (List (String × Label))
  | [] => return done
  | (key, l) :: rest => do
    match key with
    | .const ⟨_, .str s⟩ =>
      if done.any (·.1 == s) then fail (.duplicateKey (.str s))
      stringKeys ((s, l) :: done) rest
    | _ => mismatch (.stringKey key)

/-- The hashes of some keys, each once, in the order they occur. -/
def hashes (keys : List (String × Label)) : List Int32 :=
  (keys.map fun k => Text.hash k.1).eraseDups

def tryString (subject : Local) (key : String × Label) : Lower Unit := do
  load subject
  loadConst (← pooling (Pool.str key.1))
  invokeVirtual "java/lang/String" "equals" "(Ljava/lang/Object;)Z"
  branch (.ifZero .ne) key.2

/-- Dispatches on the hash first. A null subject throws. -/
def stringDispatch (subject : Operand) (arms : List (Arm × Label)) (default : Label) :
    Lower Unit := do
  let keys := (← stringKeys [] (labelKeys arms)).reverse
  let held ← temp "switch" .string
  subject.as .string
  store held
  load held
  invokeVirtual "java/lang/String" "hashCode" "()I"
  let buckets ← (hashes keys).mapM fun h => do return (h, ← newLabel)
  intSwitch (buckets.map fun (h, l) => (h.toInt, l)) default
  buckets.forM fun (h, l) => do
    join l
    (keys.filter fun k => Text.hash k.1 == h).forM (tryString held)
    branch .goto default

/-! ### Enumerations -/

/-- Compares the subject with the constants one by one; `done` has the names that were met. -/
def tryConstants (subject : Local) (type : ClassTy) (done : List String) :
    List (Expr × Label) → Lower Unit
  | [] => pure ()
  | (key, l) :: rest => do
    match key with
    | .staticField owner name ty =>
      if owner.name ≠ type.name then mismatch (.enumKey key type)
      if done.contains name then fail (.duplicateKey (.enumConst name))
      load subject
      (staticOperand owner name ty).value
      branch (.ifRefs true) l
      tryConstants subject type (name :: done) rest
    | _ => mismatch (.enumKey key type)

/-- Dispatches by identity. A null subject goes to the default. -/
def enumDispatch (subject : Operand) (type : ClassTy) (arms : List (Arm × Label))
    (default : Label) : Lower Unit := do
  let held ← temp "switch" (.cls type)
  subject.as (.cls type)
  store held
  tryConstants held type [] (labelKeys arms)
  branch .goto default

/-! ### Layout -/

def dispatch (subject : Operand) (arms : List (Arm × Label)) (default : Label) : Lower Unit := do
  let t := (← subject.type).erase
  match unboxed? t.toTy with
  | some .int | some .short | some .byte | some .char => intDispatch subject arms default
  | some _ => fail (.unsupported (.selectOn t))
  | none =>
    if t.descriptor == Ty.string.descriptor then stringDispatch subject arms default
    else match t with
      | .cls c =>
        if (← read).unit.kindOf c == .enumeration then enumDispatch subject c arms default
        else fail (.unsupported (.selectOn t))
      | _ => fail (.unsupported (.selectOn t))

/-- Lays out an arm behind its label; it ends with a jump behind the switch. -/
def layArm (stop : Label) (arm : Arm × Label) : Lower Unit := do
  join arm.2
  inScope arm.1.body
  if ← reachable then branch .goto stop

/-- A switch. Without a default, a subject that no key matches goes behind it. The dispatch has a
scope of its own. -/
def select (subject : Operand) (arms : List Arm) (default : Option (Lower Unit)) : Lower Unit := do
  let arms ← arms.mapM fun arm => do return (arm, ← newLabel)
  let stop ← newLabel
  match default with
  | some body =>
    let other ← newLabel
    inScope (dispatch subject arms other)
    arms.forM (layArm stop)
    join other
    inScope body
  | none =>
    inScope (dispatch subject arms stop)
    arms.forM (layArm stop)
  join stop

end Classwright.Lowering
