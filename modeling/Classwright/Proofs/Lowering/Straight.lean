import Classwright.Proofs.Lowering.Emission

/-!
Straight code.

Conversions, constants and accesses to members are instructions without a branch, one after another,
and constants of the pool that they name (`Straight`). What holds of such instructions and is kept
by sequencing holds of all of them.
-/

namespace Classwright

namespace Lowering

variable {α β : Type} {env : Env} {σ σ' : State} {a : Action}

/-- The variable that a search finds. -/
def found (find : Lower (Option Local)) (missing : Unresolved) : Lower Local := do
  match ← find with
  | some l => return l
  | none => fail (.unresolved missing)

/-- The second part of a conversion, which cuts down to small types. -/
def cut (source target : Prim) : Lower Unit :=
  match target with
  | .byte => if source ≠ .byte then emit (.convert .i2b) else pure ()
  | .short => if source ≠ .short ∧ source ≠ .byte then emit (.convert .i2s) else pure ()
  | .char => if source ≠ .char then emit (.convert .i2c) else pure ()
  | _ => pure ()

/-- Code that a branch splits in two and a label joins again. -/
def diamond (jump : Label → Lower Unit) (yes no : Lower Unit) : Lower Unit := do
  let other ← newLabel
  let stop ← newLabel
  jump other
  yes
  branch .goto stop
  join other
  no
  join stop

/-- Lowering that adds constants and instructions that control goes through from the first to the
last. -/
inductive Straight (env : Env) : {α : Type} → Lower α → Prop
  | pure {α : Type} (r : α) : Straight env (pure r : Lower α)
  | read : Straight env (read : Lower Env)
  | get : Straight env (get : Lower State)
  | throw {α : Type} (e : Stop) : Straight env (throw e : Lower α)
  | bind {α β : Type} {x : Lower α} {f : α → Lower β} (hx : Straight env x)
      (hf : ∀ r, Straight env (f r)) : Straight env (x >>= f)
  | placed {α : Type} {x : Lower α} (place : String) (hx : Straight env x) :
      Straight env (placed place x)
  | single {x : Lower Unit} {e : Emission} (hx : Single x e) (hf : e.falls) : Straight env x
  | pooling {α : Type} {m : PoolM α} (hm : Pool.Adds m) : Straight env (pooling m)

namespace Straight

variable {x : Lower α} {f : α → Lower β}

/-- Lowering that fails emits nothing. -/
lemma fail (c : Cause) : Straight env (fail c : Lower α) := throw _

lemma mismatch (m : Mismatch) : Straight env (mismatch m : Lower α) := throw _

/-- What follows a failure is not lowered. -/
lemma throw_bind (e : Stop) (f : α → Lower β) :
    Straight env ((MonadExcept.throw e : Lower α) >>= f) := throw e

lemma fail_bind (c : Cause) (f : α → Lower β) : Straight env (Lowering.fail c >>= f) :=
  throw_bind _ f

lemma mismatch_bind (m : Mismatch) (f : α → Lower β) : Straight env (Lowering.mismatch m >>= f) :=
  throw_bind _ f

/-- Either branch may use what decides on it. -/
lemma ite {p : Prop} [Decidable p] {y : Lower α} (hx : p → Straight env x)
    (hy : ¬ p → Straight env y) : Straight env (if p then x else y) := by
  split
  · next h => exact hx h
  · next h => exact hy h

/-- A violation stops the lowering. -/
lemma sound (r : Except Misuse α) : Straight env (sound r) := by
  cases r with
  | ok r => exact .pure r
  | error e => exact .throw _

/-- So does a question that has no answer. -/
lemma decided (r : Option α) : Straight env (decided r) := by
  cases r with
  | some r => exact .pure r
  | none => exact .throw _

/-! ### Instructions and constants -/

/-- Control goes on behind an instruction that does not end a block. -/
lemma emit (ha : a.operandLength = some 0) (he : a.endsBlock = false) : Straight env (emit a) :=
  single (.emit ha) (by simp [Emission.falls, Opcode.endsBlock, Opcode.action?_opcode, he])

/-- One instruction takes its byte as a signed number. -/
lemma emitByte (ha : a.operandLength = some 1) (v : UInt8) : Straight env (emitByte a v) := by
  by_cases hpush : a = .pushByte
  · exact hpush ▸ single (.pushByte v) rfl
  · exact single (.emitByte ha hpush v) rfl

/-- And one takes its two bytes so. -/
lemma emitShort (ha : a.takesShort) (v : UInt16) : Straight env (emitShort a v) := by
  by_cases hpush : a = .pushShort
  · exact hpush ▸ single (.pushShort v) rfl
  · exact single (.emitShort ha hpush v) rfl

/-- The assembler finds the form that fits a slot. -/
lemma load (l : Local) : Straight env (load l) := single (.onLocal _ _) rfl

lemma store (l : Local) : Straight env (store l) := single (.onLocal _ _) rfl

/-- A small index has a shorter form. -/
lemma loadConst (index : UInt16) : Straight env (loadConst index) :=
  .ite (fun _ => .emitByte rfl _) fun _ => .emitShort rfl _

/-- There are four ways to push an integer, by its size. -/
lemma pushInt (v : Int) : Straight env (pushInt v) := by
  unfold Lowering.pushInt
  split
  · exact .emit rfl rfl
  · exact .ite (fun _ => .emitByte rfl _) fun _ => .ite (fun _ => .emitShort rfl _) fun _ =>
      .bind (.pooling (Pool.adds_add _)) fun _ => .loadConst _

lemma pushLong (v : Int64) : Straight env (pushLong v) :=
  .ite (fun _ => .emit rfl rfl) fun _ => .ite (fun _ => .emit rfl rfl) fun _ =>
    .bind (.pooling (Pool.adds_add _)) fun _ => .emitShort rfl _

lemma pushFloat (bits : UInt32) : Straight env (pushFloat bits) :=
  .ite (fun _ => .emit rfl rfl) fun _ => .ite (fun _ => .emit rfl rfl) fun _ =>
    .ite (fun _ => .emit rfl rfl) fun _ => .bind (.pooling (Pool.adds_add _)) fun _ => .loadConst _

lemma pushDouble (bits : UInt64) : Straight env (pushDouble bits) :=
  .ite (fun _ => .emit rfl rfl) fun _ => .ite (fun _ => .emit rfl rfl) fun _ =>
    .bind (.pooling (Pool.adds_add _)) fun _ => .emitShort rfl _

/-- Types that are no classes have no index. -/
lemma classIndex (ty : Ty) : Straight env (classIndex ty) :=
  .bind (.sound _) fun _ => .pooling (Pool.adds_cls _)

lemma checkCast (ty : Ty) : Straight env (checkCast ty) :=
  .bind (.classIndex ty) fun _ => .emitShort rfl _

lemma fieldInsn (ha : a.takesShort) (owner : ClassTy) (name : String) (ty : Ty) :
    Straight env (fieldInsn a owner name ty) :=
  .bind (.pooling (Pool.adds_field _ _ _)) fun _ => .emitShort ha _

/-- A call, with its object and arguments on the stack. -/
lemma invoke (ha : a.takesShort) (owner name desc : String) (isInterface : Bool) :
    Straight env (invoke a owner name desc isInterface) :=
  .bind (.pooling (Pool.adds_method _ _ _ _)) fun _ => .emitShort ha _

lemma param? (name : String) : Straight env (param? name) := .bind .read fun _ => .pure _

/-- To look up a name emits nothing. -/
lemma lookup? (name : String) : Straight env (lookup? name) := by
  refine .bind .get fun _ => ?_
  split
  · exact .pure _
  · exact .param? name

lemma found {find : Lower (Option Local)} (hf : Straight env find) (missing : Unresolved) :
    Straight env (found find missing) := by
  refine .bind hf fun r => ?_
  cases r with
  | none => exact .fail _
  | some l => exact .pure l

/-- The class of a primitive is a field of its box. -/
lemma pushClass (t : Ty) : Straight env (pushClass t) := by
  unfold Lowering.pushClass
  split
  · exact .fieldInsn rfl _ _ _
  · exact .bind (.classIndex _) fun _ => .loadConst _

/-- Constants of all types; one that is out of range fails. -/
lemma pushConst (c : Constant) : Straight env (pushConst c) := by
  unfold Lowering.pushConst
  split
  · exact .ite (fun _ => .emit rfl rfl) fun _ => .mismatch _
  · exact .emit rfl rfl
  -- a whole number, by the type that it is used at
  · split
    · exact .ite (fun _ => .mismatch_bind _ _) fun _ => .pushInt _
    · exact .pushLong _
    · exact .pushFloat _
    · exact .pushDouble _
    · exact .mismatch _
  -- a number with a fraction
  · split
    · exact .pushFloat _
    · exact .pushDouble _
    · exact .mismatch _
  · exact .bind (.pooling (Pool.adds_str _)) fun _ => .loadConst _
  · exact .pushClass _
  · exact .fail _

/-! ### Conversions -/

lemma cut (source target : Prim) : Straight env (cut source target) := by
  unfold Lowering.cut
  split
  · exact .ite (fun _ => .emit rfl rfl) fun _ => .pure ()
  · exact .ite (fun _ => .emit rfl rfl) fun _ => .pure ()
  · exact .ite (fun _ => .emit rfl rfl) fun _ => .pure ()
  · exact .pure ()

/-- A conversion by category, if there is one, and a cut. -/
lemma convert (source target : Prim) : Straight env (convert source target) := by
  refine .ite (fun _ => ?_) fun _ => .cut source target
  cases conversion? source.category target.category with
  | some c => exact .bind (.emit rfl rfl) fun _ => .cut source target
  | none => exact .cut source target

lemma widen (source target : Prim) : Straight env (widen source target) :=
  .ite (fun _ => .pure ()) fun _ => .ite (fun _ => .mismatch_bind _ _) fun _ =>
    .ite (fun _ => .convert _ _) fun _ => .fail _

/-- The hierarchy may have no answer. -/
lemma assignable (d e : Erased) : Straight env (assignable d e) := by
  refine .ite (fun _ => .pure _) fun _ => ?_
  split
  · refine .bind .read fun _ => .ite (fun _ => .pure _) fun _ => ?_
    split
    · exact .bind (.decided _) fun _ => .pure _
    · exact .pure _
  · exact .pure _

/-- A cast is added unless the type can be assigned. -/
lemma coerceRef (d e : Erased) : Straight env (coerceRef d e) := by
  refine .bind (.assignable d e) fun _ => .ite (fun _ => .pure ()) fun _ => ?_
  dsimp only
  split
  · split
    · exact .bind .read fun _ => .bind (.decided _) fun _ =>
        .ite (fun _ => .mismatch_bind _ _) fun _ => .checkCast _
    · exact .checkCast _
  · exact .checkCast _

lemma box (p : Prim) (e : Erased) : Straight env (box p e) := by
  unfold Lowering.box
  split
  · exact .mismatch _
  · exact .bind (.assignable _ _) fun _ => .ite (fun _ => .invoke rfl _ _ _ _) fun _ => .mismatch _

lemma unbox (w : ClassTy) (p : Prim) : Straight env (unbox w p) := .invoke rfl _ _ _ _

/-- Implicit conversions: widening, boxing, unboxing or a cast. -/
lemma coerce (s t : Ty) : Straight env (coerce s t) := by
  refine .ite (fun _ => .fail_bind _ _) fun _ => .ite (fun _ => .mismatch_bind _ _) fun _ => ?_
  split
  · exact .widen _ _
  · exact .box _ _
  · split
    · exact .bind (.unbox _ _) fun _ => .widen _ _
    · exact .mismatch _
  · exact .coerceRef _ _

lemma castPrim (p q : Prim) : Straight env (castPrim p q) :=
  .ite (fun _ => .pure ()) fun _ => .ite (fun _ => .mismatch_bind _ _) fun _ => .convert _ _

/-- Explicit conversions, also through boxes. -/
lemma cast (s t : Ty) : Straight env (cast s t) := by
  refine .ite (fun _ => .fail_bind _ _) fun _ => ?_
  split
  · exact .castPrim _ _
  -- a primitive for a class, be it that of a box or one above it
  · split
    · exact .bind (.castPrim _ _) fun _ => .box _ _
    · exact .box _ _
  · split
    · exact .bind (.unbox _ _) fun _ => .castPrim _ _
    · exact .bind (.checkCast _) fun _ => .unbox _ _
    · exact .mismatch _
  · exact .bind (.assignable _ _) fun _ => .ite (fun _ => .pure ()) fun _ => .checkCast _

lemma comparisonType (op : CompareOp) (s t : Ty) : Straight env (comparisonType op s t) := by
  unfold Lowering.comparisonType
  split
  · exact .ite (fun _ => .ite (fun _ => .pure _) fun _ => .mismatch _) fun _ => .pure _
  · exact .mismatch _

end Straight

end Lowering

end Classwright
