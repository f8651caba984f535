import Classwright.Proofs.Conditions.Evaluation
import Classwright.Proofs.Integral.Arithmetic
import Classwright.Proofs.Lowering.Instructions

/-!
Branches on comparisons of numbers.

Two numbers are compared in one instruction, or by the sign of their order. The branch is on the
comparison that is asked for or, if it is not wanted, on its opposite.
-/

namespace Classwright

namespace Lowering

open Machine (Recorded Value)

/-- The branch on the two values that are compared. -/
def orderJump (t : Prim) (c : Cond) (greater : Bool) (target : Label) : Lower Unit :=
  match t.category with
  | .long => do
    emit .compareLong
    branch (.ifZero c) target
  | .float => do
    emit (.compareFloat greater)
    branch (.ifZero c) target
  | .double => do
    emit (.compareDouble greater)
    branch (.ifZero c) target
  | _ => branch (.ifInts c) target

namespace Performance

variable {P : Performance} {M : Mode} {want : Bool}

lemma branches_ifZero (op : CompareOp) (v : Value) :
    P.Branches M [v] (branch (.ifZero (condOf (if want then op else op.negate)))) (do
      let n ← .of (Machine.toInt v)
      return Integral.holds op n.toInt 0) want := by
  have h := Branches.branch (P := P) (M := M) rfl
    (Machine.Session.effects_ifZero (condOf (if want then op else op.negate)) v)
  simp only [Integral.holds_wanted, Recorded.of_bind, Recorded.of_pure] at h
  exact .of_wanted (by simpa using h)

lemma branches_ifInts (op : CompareOp) (v w : Value) :
    P.Branches M [w, v] (branch (.ifInts (condOf (if want then op else op.negate)))) (do
      let m ← .of (Machine.toInt v)
      let n ← .of (Machine.toInt w)
      return Integral.holds op m.toInt n.toInt) want := by
  have h := Branches.branch (P := P) (M := M) rfl
    (Machine.Session.effects_ifInts (condOf (if want then op else op.negate)) v w)
  simp only [Integral.holds_wanted, Recorded.of_bind, Recorded.of_pure] at h
  exact .of_wanted (by simpa using h)

lemma branches_testInt (v : Value) : P.Branches M [v] (testInt want) (do
    let n ← .of (Machine.toInt v)
    return n != 0) want := by
  have hcond : (if want then .ne else .eq : Cond) =
      condOf (if want then .ne else CompareOp.ne.negate) := by
    cases want <;> rfl
  have hholds (n : Int32) : (n != 0) = Integral.holds .ne n.toInt 0 := by
    rw [Bool.eq_iff_iff]
    simp [Integral.holds, ← Int32.toInt_inj]
  unfold testInt
  simp only [hcond, hholds]
  exact branches_ifZero .ne v

/-- The order of two numbers is a number, whose sign tells it. -/
lemma branches_longs (op : CompareOp) (v w : Value) :
    P.Branches M [w, v] (fun l => do
      emit .compareLong
      branch (.ifZero (condOf (if want then op else op.negate))) l) (do
      let m ← .of (Machine.toLong v)
      let n ← .of (Machine.toLong w)
      return Integral.holds op m.toInt n.toInt) want := by
  have hsign (m n : Int64) : (do
      let k ← Recorded.of (Machine.toInt (Machine.orderOf (m < n) (n < m)))
      return Integral.holds op k.toInt 0) = pure (Integral.holds op m.toInt n.toInt) := by
    have horder : (if m < n then -1 else if n < m then 1 else 0 : Int32).toInt =
        if m.toInt < n.toInt then -1 else if n.toInt < m.toInt then 1 else 0 := by
      simp only [Int64.lt_iff_toInt_lt]
      split_ifs <;> rfl
    have hint : Recorded.of (Machine.toInt (Machine.orderOf (m < n) (n < m))) =
        pure (if m < n then -1 else if n < m then 1 else 0) := by
          simp [Machine.orderOf, Machine.toInt]
    rw [hint, pure_bind, horder, ← Integral.holds_condOf, Integral.holds_order,
      Integral.holds_condOf]
  intro l
  have hzero (u : Value) :
      P.Branches M [u] (branch (.ifZero (condOf (if want then op else op.negate)))) _ want :=
    branches_ifZero op u
  have h := (Puts.compareLong v w).bind (b := []) fun u _ => hzero u l
  simpa only [Recorded.of_bind, Recorded.of_pure, bind_assoc, pure_bind, hsign,
    List.append_nil] using h

lemma branches_orderJump {p : Prim} (hp : p ≠ .float ∧ p ≠ .double) (op : CompareOp)
    (greater : Bool) (v w : Value) :
    P.Branches M [w, v] (orderJump p (condOf (if want then op else op.negate)) greater)
      (Conditions.compareNumbers op p v w) want := by
  cases p with
  | long => exact branches_longs op v w
  | float => exact absurd rfl hp.1
  | double => exact absurd rfl hp.2
  | _ => exact branches_ifInts op v w

end Performance

end Lowering

end Classwright
