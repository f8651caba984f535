import Classwright.Proofs.Conditions.Operands
import Classwright.Proofs.Lowering.Comparisons

/-!
Branches on conditions.

The code of a condition evaluates it from left to right, and its second part only if the first one
does not decide. It goes to the label exactly if the condition is as wanted, and goes on otherwise.
The proof goes along the ways in which conditions are composed (`means_of_composed`): an operand has
a value and can be branched on, and either does what the evaluation of its term says (`Means`).
-/

namespace Classwright

open Machine (Recorded Value)

namespace Conditions

/-- A comparison fails where its opposite holds. -/
lemma compareNumbers_negate (op : CompareOp) (p : Prim) (v w : Value) :
    compareNumbers op.negate p v w = (fun b => !b) <$> compareNumbers op p v w := by
  unfold compareNumbers
  split <;> simp [Integral.holds_negate]

namespace Context

variable {C : Context}

section

variable {op : CompareOp} {l r : Expr} {a b : Ty} (ha : l.type = .ok a) (hb : r.type = .ok b)
  (x y : Recorded Value)

include ha hb

lemma compared_of_identity (h : byIdentity op a b) :
    C.compared op l r x y = (fun s => s == (op == .eq)) <$> do
    let v ← x
    let w ← y
    return v.same w := by
  unfold compared
  rw [ha, hb]
  simp [h]

lemma compared_of_numbers (h : ¬ byIdentity op a b) : C.compared op l r x y = (do
    let v ← x >>= C.converted a (.prim (comparedAs a b))
    let w ← y >>= C.converted b (.prim (comparedAs a b))
    compareNumbers op (comparedAs a b) v w) := by
  unfold compared
  rw [ha, hb]
  simp [h]

end

lemma compared_ne (l r : Expr) (x y : Recorded Value) :
    C.compared .ne l r x y = (fun b => !b) <$> C.compared .eq l r x y := by
  cases ha : l.type with
  | error _ => simp only [compared, ha]; rfl
  | ok a =>
    cases hb : r.type with
    | error _ => simp only [compared, ha, hb]; rfl
    | ok b =>
      by_cases hid : byIdentity .eq a b
      · have hop : (CompareOp.ne == .eq) = false := rfl
        have hid' : byIdentity .ne a b := hid
        rw [compared_of_identity ha hb x y hid, compared_of_identity ha hb x y hid']
        simp [hop]
      · have hnumbers (v w : Value) : compareNumbers .ne (comparedAs a b) v w =
            (fun b => !b) <$> compareNumbers .eq (comparedAs a b) v w :=
              compareNumbers_negate .eq _ v w
        have hid' : ¬ byIdentity .ne a b := hid
        rw [compared_of_numbers ha hb x y hid, compared_of_numbers ha hb x y hid']
        simp [hnumbers]

lemma evaluate_of_isNullConst {e : Expr} (h : e.isNullConst) : C.evaluate e = pure .null := by
  unfold Expr.isNullConst at h
  split at h
  · simp [evaluate, constant]
  · cases h

/-- A zero is zero at any type of a comparison of whole numbers. -/
lemma evaluate_of_isZeroConst {known : Expr → Prop} {e : Expr} {b : Ty} {p : Prim}
    (h : Composed known e) (hzero : Lowering.isZeroConst e) (hb : e.type = .ok b)
    (hlong : b.category ≠ .long) (hp : p.category = .int) :
    C.evaluate e >>= C.converted b (.prim p) = pure (.int 0) := by
  cases h with
  | null => cases hzero
  | @bool ty hty c =>
    obtain rfl : ty = b := Except.ok.inj hb
    cases c with
    | true => cases hzero
    | false =>
      have hcat : ty.category = .int := by simp [Ty.category, hty, Erased.category, Prim.category]
      simp [evaluate, constant, converted_of_category hcat hp, Value.ofBool]
  | @int ty hty v =>
    obtain rfl : ty = b := Except.ok.inj hb
    have hcat := hty.resolve_right hlong
    have hv : v = 0 := by simpa [Lowering.isZeroConst, Constant.isZero, Constant.int?] using hzero
    simp [evaluate, constant, hcat, converted_of_category hcat hp, hv]
  | other he _ =>
    cases e with
    | const c =>
      obtain ⟨ty, c⟩ := c
      cases c <;> first | cases hzero | cases he
    | _ => cases hzero
  | _ => cases hzero

end Context

end Conditions

namespace Lowering

lemma unboxed_of_unboxed? {t : Ty} {p : Prim} (h : unboxed? t = some p) : t.unboxed = p := by
  unfold unboxed? at h
  unfold Ty.unboxed
  cases ht : t.erase with
  | prim q =>
    rw [ht] at h
    cases q <;> cases h <;> rfl
  | cls c =>
    rw [ht] at h
    simp only [h, Option.getD_some]
  | array of dims =>
    rw [ht] at h
    cases h

lemma unboxed_of_long {t : Ty} (h : t.category = .long) : t.unboxed = .long := by
  unfold Ty.category at h
  unfold Ty.unboxed
  cases ht : t.erase with
  | prim q =>
    rw [ht] at h
    cases q <;> cases h
    rfl
  | _ =>
    rw [ht] at h
    cases h

namespace Performance

open Conditions (Comparable Composed Context byIdentity compareNumbers comparedAs isOther)

variable {P : Performance} {other : Expr → Recorded Value} {want : Bool} {value : Lower Unit}
  {m : Recorded Value} {jump : Bool → Label → Lower Unit}

/-! ### Operands -/

/-- The code of a value, and a branch on it. -/
lemma branches_jumpOnValue {e : Expr} (h : P.Puts P.answered [] value m fun v => [v]) :
    P.Branches P.answered [] (jumpOnValue e value want) ((P.context other).truth e m) want := by
  refine fun l => h.bind (b := []) fun v _ => .tell (.sound _) fun ty hty => ?_
  rw [Context.convertedFrom_eq hty]
  exact (puts_coerce ty (.prim .boolean) v).bind (b := []) fun w _ => branches_testInt w l

lemma branches_nullJump {o : Operand} (h : P.Puts P.answered [] o.value m fun v => [v]) :
    P.Branches P.answered [] (nullJump o want) (Value.isNull <$> m) want := by
  have href : P.Puts P.answered [] o.ref m fun v => [v] :=
    .tell (.type _) fun _ _ => .ite (fun _ => h) fun _ => .throw _
  rw [← bind_pure_comp]
  refine fun l => href.bind (b := []) fun v _ => Branches.of_wanted ?_ l
  rw [map_pure, ← Recorded.of_pure]
  cases want with
  | true => exact .branch rfl (by simpa using Machine.Session.effects_ifNull v)
  | false => exact .branch rfl (by simpa using Machine.Session.effects_ifNonNull v)

/-- References are compared in one instruction, and so is one with the null constant. -/
lemma branches_identityJump {l r : Operand} {x y : Recorded Value}
    (hl : P.Puts P.answered [] l.value x fun v => [v])
    (hr : P.Puts P.answered [] r.value y fun v => [v]) (hx : l.term.isNullConst → x = pure .null)
    (hy : r.term.isNullConst → y = pure .null) (same : Bool) :
    P.Branches P.answered [] (identityJump same l r) (do
      let v ← x
      let w ← y
      return v.same w) same := by
  refine fun target => .ite (fun h => ?_) fun _ => .ite (fun h => ?_) fun _ => ?_
  · have hnull (v : Value) : v.same .null = v.isNull := by cases v <;> rfl
    simpa [hy h, hnull] using branches_nullJump hl target
  · have hnull (w : Value) : Value.null.same w = w.isNull := by cases w <;> rfl
    simpa [hx h, funext hnull] using branches_nullJump hr target
  · refine hl.bind (b := []) fun v _ => hr.bind (b := [v]) fun w _ => Branches.of_wanted ?_ target
    rw [map_pure, ← Recorded.of_pure]
    exact .branch rfl (Machine.Session.effects_ifRefs same v w)

/-- Numbers are compared at the larger type, and a long is not compared at a smaller one. -/
lemma tells_comparisonType (op : CompareOp) (a b : Ty) : P.Tells (comparisonType op a b) fun p =>
    p = comparedAs a b ∧ (p.category = .int → b.category ≠ .long) := by
  unfold comparisonType comparedAs
  cases ha : unboxed? a with
  | none => exact .throw _
  | some p =>
    cases hb : unboxed? b with
    | none => exact .throw _
    | some q =>
      have hlong (h : b.category = .long) : q = .long :=
        (unboxed_of_unboxed? hb).symm.trans (unboxed_of_long h)
      rw [unboxed_of_unboxed? ha, unboxed_of_unboxed? hb]
      refine .ite (fun hbool => .ite (fun heq => .pure ?_) fun _ => .throw _)
        fun hbool => .pure ⟨?_, fun hp hq => ?_⟩
      · obtain ⟨rfl, rfl⟩ : p = .boolean ∧ q = .boolean := by grind
        refine ⟨rfl, fun _ h => ?_⟩
        cases hlong h
      · rw [if_neg (by grind)]
      · obtain rfl := hlong hq
        cases p <;> cases hp

lemma branches_compareJump {op : CompareOp} {l r : Expr} (hop : Comparable op l r)
    (hl : P.Puts P.answered [] (operand l).value ((P.context other).evaluate l) fun v => [v])
    (hr : P.Puts P.answered [] (operand r).value ((P.context other).evaluate r) fun v => [v])
    (hzero : ∀ {b : Ty} {p : Prim}, isZeroConst r → r.type = .ok b → b.category ≠ .long →
    p.category = .int → (P.context other).evaluate r >>= (P.context other).converted b (.prim p) =
    pure (.int 0)) : P.Branches P.answered [] (compareJump op (operand l) (operand r) want)
    ((P.context other).compared op l r ((P.context other).evaluate l)
    ((P.context other).evaluate r)) want := by
  refine fun target => .tell (.type _) fun a ha => .tell (.type _) fun b hb => ?_
  rw [term_operand] at ha hb
  refine .ite (fun hid => ?_) fun hid => ?_
  · rw [Context.compared_of_identity ha hb _ _ hid]
    have hop : op = .eq ∨ op = .ne := by grind
    refine Branches.map (branches_identityJump hl hr ?_ ?_ _) (fun s => ?_) target
    · rw [term_operand]
      exact Context.evaluate_of_isNullConst
    · rw [term_operand]
      exact Context.evaluate_of_isNullConst
    · rcases hop with rfl | rfl <;> cases s <;> cases want <;> decide
  · rw [Context.compared_of_numbers ha hb _ _ hid]
    have hwhole := (hop ha hb).resolve_left hid
    refine .tell (tells_comparisonType op a b) fun p hp => ?_
    obtain ⟨rfl, hlong⟩ := hp
    have hl := puts_as hl (.prim (comparedAs a b))
    have hr := puts_as hr (.prim (comparedAs a b))
    rw [Context.convertedFrom_eq ha] at hl
    rw [Context.convertedFrom_eq hb] at hr
    refine hl.bind (b := []) fun v _ => .ite (fun hz => ?_) fun _ =>
      hr.bind (b := [v]) fun w _ => branches_orderJump hwhole op _ v w target
    obtain ⟨hcat, hz⟩ := Bool.and_eq_true_iff.1 hz
    rw [beq_iff_eq] at hcat
    rw [term_operand] at hz
    rw [hzero hz hb (hlong hcat) hcat, pure_bind]
    simpa [compareNumbers, hcat, Machine.toInt] using branches_ifZero op v target

/-! ### Conditions -/

variable (P other) in
/-- The code of an operand does what the evaluation of its term says, and branches on whether it
holds. -/
structure Means (e : Expr) : Prop where
  value : P.Puts P.answered [] (operand e).value ((P.context other).evaluate e) fun v => [v]
  jump : ∀ want, P.Branches P.answered [] ((operand e).jump want) ((P.context other).holds e) want

variable {e : Expr}

lemma means_ofJump {m : Recorded Bool} (ho : operand e = ofJump e jump)
    (hty : e.type = .ok (.prim .boolean)) (hm : (P.context other).evaluate e = Value.ofBool <$> m)
    (h : ∀ want, P.Branches P.answered [] (jump want) m want) : P.Means other e where
  value := by
    rw [ho, hm]
    exact .placed _ (puts_materialize fun l => .placed _ (h false l))
  jump want := by
    rw [ho, Context.holds, hm, Context.truth_ofBool _ hty rfl]
    exact fun l => .placed _ (h want l)

lemma means_ofValue (hvalue : (operand e).value = placed e.kindName value)
    (hjump : (operand e).jump = fun want l => placed e.kindName (jumpOnValue e value want l))
    (h : P.Puts P.answered [] (operand e).value ((P.context other).evaluate e) fun v => [v]) :
    P.Means other e where
  value := h
  jump want := by
    rw [hjump]
    rw [hvalue] at h
    exact fun l => .placed _ (branches_jumpOnValue (Does.of_placed h) l)

/-- A constant that is not boolean is no condition. -/
lemma means_const {c : Constant} (hc : ∀ b, c.value ≠ .bool b)
    (h : P.Puts P.answered [] (operand (.const c)).value ((P.context other).evaluate (.const c))
    fun v => [v]) : P.Means other (.const c) where
  value := h
  jump want := by
    have hjump : constJump c want = fun _ => mismatch (.condition c) := by
      funext l
      unfold constJump
      split
      · next b hb => exact absurd hb (hc b)
      · rfl
    refine fun l => .placed (Expr.const c).kindName ?_
    rw [hjump]
    exact .throw _

lemma means_bool {ty : Ty} (hty : ty.erase = .prim .boolean) (b : Bool) :
    P.Means other (.const ⟨ty, .bool b⟩) where
  value := by
    rw [Context.evaluate]
    exact .placed (Expr.const ⟨ty, .bool b⟩).kindName (puts_bool b)
  jump want := by
    have hcat : ty.category = .int := by simp [Ty.category, hty, Erased.category, Prim.category]
    have hholds : (P.context other).holds (.const ⟨ty, .bool b⟩) = pure b := by
      rw [← Context.truth_ofBool (P.context other) (e := .const ⟨ty, .bool b⟩) rfl hcat (pure b)]
      rfl
    rw [hholds]
    refine fun l => .placed (Expr.const ⟨ty, .bool b⟩).kindName
      (.ite (fun hb => Branches.of_wanted ?_ l) fun hb => Branches.never hb l)
    simpa [hb] using branches_goto

/-- Operands that are not looked into have a value, and the branch on it. -/
lemma means_other (he : isOther e)
    (h : P.Puts P.answered [] (operand e).value (other e) fun v => [v]) : P.Means other e := by
  have heval : (P.context other).evaluate e = other e := (P.context other).evaluate_of_isOther he
  rw [← heval] at h
  cases e with
  | const c => exact means_const (by rintro b hb; obtain ⟨ty, c⟩ := c; subst hb; cases he) h
  | field | staticField | caught | call | new | newArray | arrayLit | cast | instanceOf | math | neg
      | cond | select
  | yielding | hash | classOf | property | length => exact means_ofValue rfl rfl h
  | element array index =>
    refine means_ofValue rfl ?_ h
    rw [operand, elementOperand, term_operand, term_operand]
    rfl
  | _ => cases he

/-- Conditions, by the ways in which they are composed. -/
lemma means_of_composed (he : Composed
    (fun e => P.Performs [] (operand e).value (other e) fun v => [v]) e) : P.Means other e := by
  induction he with
  | null ty =>
    refine means_const (by simp)
      (.placed (Expr.const ⟨ty, .null⟩).kindName (.ite (fun _ => ?_) fun _ => .throw _))
    rw [Context.evaluate]
    exact Puts.push rfl rfl fun _ _ => rfl
  | bool hty b => exact means_bool hty b
  | @int ty hty n =>
    refine means_const (by simp) ?_
    rw [Context.evaluate]
    exact .placed (Expr.const ⟨ty, .int n⟩).kindName (puts_int hty n)
  | str ty s =>
    refine means_const (by simp) ?_
    rw [Context.evaluate]
    exact .placed (Expr.const ⟨ty, .str s⟩).kindName (Puts.str s)
  | localVar name ty =>
    refine means_ofValue rfl rfl ?_
    rw [Context.evaluate]
    exact puts_variable (.lookup? name) ty
  | param name ty =>
    refine means_ofValue rfl rfl ?_
    rw [Context.evaluate]
    exact puts_variable (.param? name) ty
  | this c =>
    refine means_ofValue rfl rfl ?_
    rw [Context.evaluate]
    exact .placed (Expr.this c).kindName puts_receiver
  | super c =>
    refine means_ofValue rfl rfl ?_
    rw [Context.evaluate]
    exact .placed (Expr.super c).kindName puts_receiver
  | callStatic hm _ ih =>
    exact means_ofValue rfl rfl (puts_callStatic hm fun e he => (ih e he).value)
  | and _ _ hl hr | or _ _ hl hr =>
    refine means_ofJump rfl rfl ?_ (.both hl.jump hr.jump)
    rw [Context.evaluate]
    exact congrArg (Value.ofBool <$> ·) (bind_congr fun b => by cases b <;> rfl)
  | isTrue _ hv =>
    refine means_ofJump rfl rfl ?_ hv.jump
    simp [Context.evaluate, Context.holds]
  | isFalse _ hv =>
    refine means_ofJump rfl rfl ?_ fun want => (hv.jump (!want)).not
    simp [Context.evaluate, Context.holds]
  | isNull _ hv =>
    refine means_ofJump rfl rfl ?_ fun want => branches_nullJump hv.value
    simp [Context.evaluate]
  | notNull _ hv =>
    refine means_ofJump rfl rfl ?_ fun want => (branches_nullJump hv.value).not
    simp [Context.evaluate]
  | compare hop _ hr' hl hr | same hop _ hr' hl hr =>
    refine means_ofJump rfl rfl ?_ fun want => branches_compareJump hop hl.value hr.value ?_
    · simp [Context.evaluate]
    · exact Context.evaluate_of_isZeroConst hr'
  | differ hop _ hr' hl hr =>
    refine means_ofJump rfl rfl ?_ fun want => (branches_compareJump hop hl.value hr.value ?_).not
    · simp [Context.evaluate, Context.compared_ne]
    · exact Context.evaluate_of_isZeroConst hr'
  | other he h => exact means_other he h.puts

end Performance

end Lowering

end Classwright
