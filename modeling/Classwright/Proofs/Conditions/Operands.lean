import Classwright.Proofs.Conditions.Evaluation
import Classwright.Proofs.Lowering.Instructions
import Classwright.Proofs.Lowering.Selection

/-!
The operands of conditions.

The code of a conversion does what the conversion of values says, and so does the code of a
constant, of a variable and of a static call, provided that the code of its arguments does.
-/

namespace Classwright

/-! ### Types -/

/-- A box is named after what it holds. -/
lemma Erased.spelled_of_wrapper {p : Prim} {w : ClassTy} (h : p.wrapper? = some w) :
    (Erased.prim p).Spelled ∧ (Erased.cls w).Spelled := by
  cases p <;> cases h <;> exact ⟨by simp [Erased.Spelled], by simp [Erased.Spelled]⟩

lemma Erased.spelled_of_unwrap {e : Erased} {p : Prim} (h : e.unwrap? = some p) :
    (Erased.prim p).Spelled := by
  cases e with
  | cls c =>
    have hname := List.find?_some h
    rintro rfl
    simp [Prim.wrapper?] at hname
  | _ => cases h

namespace Lowering

open Machine (Recorded Value)
open Conditions (Context passes widened widening?)

/-! ### Conversions -/

/-- A conversion that widens takes one instruction, or none. -/
lemma conversion?_of_widens {p q : Prim} (h : p.widensTo q) (hne : p.category ≠ q.category) :
    ∃ c, conversion? p.category q.category = some c ∧ widening? p.category q.category = some c := by
  cases p <;> cases q <;> first | exact absurd rfl hne | exact ⟨_, rfl, rfl⟩ | cases h

lemma cut_of_widens {p q : Prim} (h : p.widensTo q) : cut p q = pure () := by
  cases q with
  | byte | short | char => cases p <;> first | cases h; rfl | cases h
  | _ => rfl

lemma widening?_self (c : Category) : widening? c c = none := by cases c <;> rfl

namespace Performance

variable {P : Performance} {other : Expr → Recorded Value} {es : List Expr}

/-- What terms are evaluated in where a method is run. -/
def context (P : Performance) (other : Expr → Recorded Value) : Context where
  unit := P.env.unit
  visible := P.scopes.flatMap (·.vars)
  params := P.env.params
  slots := P.session.locals
  answers := P.session.answers
  other := other

lemma tells_assignable (d e : Erased) :
    P.Tells (assignable d e) fun r => r = passes P.env.unit d e := by
  unfold assignable passes
  refine .ite (fun h => .pure (by simp [h])) fun h => ?_
  cases e with
  | cls b =>
    refine .bind .read fun _ hr => ?_
    subst hr
    refine .ite (fun h' => .pure ?_) fun h' => ?_
    · cases d <;> simp_all
    · cases d with
      | cls a =>
        refine .bind (.decided _) fun r hr => .pure ?_
        simp only [Bool.not_eq_true] at h h'
        simp [h, h', hr]
      | _ => exact .pure (by simp_all)
  | _ => exact .pure (by cases d <;> simp_all)

lemma puts_widen (p q : Prim) (v : Value) :
    P.Puts P.answered [v] (widen p q) (.of (widened p q v)) fun w => [w] := by
  have hnone (h : widening? p.category q.category = none) :
      Recorded.of (widened p q v) = pure v := by
    unfold widened
    rw [h]
    rfl
  unfold widen
  refine .ite (fun heq => ?_) fun _ => .ite (fun _ => .throw _) fun _ =>
    .ite (fun hwidens => ?_) fun _ => .throw _
  · subst heq
    rw [hnone (widening?_self _)]
    exact .pure ⟨rfl, rfl⟩
  · unfold convert
    refine .ite (fun hne => ?_) fun heq => ?_
    · obtain ⟨c, hc, hc'⟩ := conversion?_of_widens hwidens hne
      have hwidened : widened p q v = Machine.convert c v := by
        unfold widened
        rw [hc']
      rw [hc, hwidened]
      have hemit : P.Puts P.answered _ _ _ _ := Puts.convert c v
      rw [← bind_pure_unit (x := emit (.convert c)), ← cut_of_widens hwidens] at hemit
      exact hemit
    · rw [hnone (not_ne_iff.1 heq ▸ widening?_self _)]
      have hpure : P.Puts P.answered [v] (pure ()) (pure v) fun w => [w] := .pure ⟨rfl, rfl⟩
      rw [← cut_of_widens hwidens] at hpure
      exact hpure

/-- A call of a method that no interface declares. -/
lemma puts_call {a : Action} {kind : Machine.CallKind} {owner name : String} (params : List Ty)
    (ret : Ty) (ha : a.takesShort) (hkind : Machine.callKind? a = some kind)
    (hparams : ∀ t ∈ params, t.erase.Spelled) (hret : ret.erase.Spelled) {vs : List Value}
    (hlen : vs.length = kind.arity (params.map Ty.descriptor)) :
    P.Puts P.answered vs (invoke a owner name (methodDescriptor params ret) false)
    ((P.context other).call kind owner name (methodDescriptor params ret) vs.reverse)
    fun w => [w] :=
  .invoke ha hkind (Descriptor.parse_methodDescriptor hparams (.inr hret))
    (Machine.returnsValue_methodDescriptor params hret) hlen

lemma puts_box (p : Prim) (e : Erased) (v : Value) : P.Puts P.answered [v] (box p e)
    (match p.wrapper? with
    | some w =>
      (P.context other).call .static w.internal "valueOf" (methodDescriptor [.prim p] (.cls w)) [v]
    | none => pure v) fun w => [w] := by
  unfold box
  cases hw : p.wrapper? with
  | none => exact .throw _
  | some w =>
    obtain ⟨hp, hcls⟩ := Erased.spelled_of_wrapper hw
    refine .tell (tells_assignable _ _) fun r _ => .ite (fun _ => ?_) fun _ => .throw _
    have hdesc : "(" ++ p.descriptor ++ ")" ++ (Erased.cls w).descriptor =
        methodDescriptor [.prim p] (.cls w) := by
      simp [methodDescriptor, Ty.descriptor, Ty.erase, Erased.descriptor]
    rw [hdesc]
    have hparams : ∀ t ∈ [Ty.prim p], t.erase.Spelled := by simpa [Ty.erase] using hp
    exact puts_call [.prim p] (.cls w) rfl rfl hparams hcls rfl

lemma puts_unbox {c : ClassTy} {p : Prim} (h : (Erased.cls c).unwrap? = some p) (v : Value) :
    P.Puts P.answered [v] (unbox c p)
    ((P.context other).call .virtual c.internal (p.name ++ "Value") (methodDescriptor [] (.prim p))
    [v]) fun w => [w] := by
  have hdesc : "()" ++ p.descriptor = methodDescriptor [] (.prim p) := by
    simp [methodDescriptor, Ty.descriptor, Ty.erase, Erased.descriptor]
  unfold unbox
  rw [hdesc]
  exact puts_call [] (.prim p) rfl rfl (by simp) (Erased.spelled_of_unwrap h) rfl

lemma puts_coerceRef {d e : Erased} (he : e.isReference) (v : Value) :
    P.Puts P.answered [v] (coerceRef d e) (if passes P.env.unit d e then pure v
      else do
        .of (Machine.checkCast v (Conditions.className e))
        return v) fun w => [w] := by
  have hinternal : e.toTy.internal = .ok (Conditions.className e) := by
    unfold Ty.internal
    rw [Erased.erase_toTy]
    cases e with
    | prim p => cases he
    | _ => rfl
  have hcast := Puts.checkCast (P := P) hinternal v
  rw [Recorded.of_bind] at hcast
  unfold coerceRef
  refine .tell (tells_assignable d e) fun r hr => ?_
  subst hr
  refine .ite (fun h => ?_) fun h => ?_
  · rw [if_pos h]
    exact .pure ⟨rfl, rfl⟩
  · rw [if_neg h]
    dsimp only
    split
    · split
      · exact .tell .read fun _ _ => .tell (.decided _) fun _ _ =>
          .ite (fun _ => .throw _) fun _ => hcast
      · exact hcast
    · exact hcast

/-- The code of a conversion. -/
lemma puts_coerce (a b : Ty) (v : Value) :
    P.Puts P.answered [v] (coerce a b) ((P.context other).converted a b v) fun w => [w] := by
  unfold coerce Context.converted
  refine .ite (fun _ => .throw _) fun _ => .ite (fun _ => .throw _) fun _ => ?_
  cases a.erase with
  | prim p =>
    cases b.erase with
    | prim q => exact puts_widen p q v
    | _ => exact puts_box p _ v
  | cls c =>
    cases b.erase with
    | prim q =>
      cases hp : (Erased.cls c).unwrap? with
      | none =>
        have hboxed : boxed? (.cls c) = none := by rw [boxed?, hp, Option.map_none]
        simp only [hboxed]
        exact .throw _
      | some p =>
        have hboxed : boxed? (.cls c) = some (c, p) := by rw [boxed?, hp, Option.map_some]
        simp only [hboxed, hp]
        exact (puts_unbox hp v).bind (b := []) fun w _ => puts_widen p q w
    | _ => exact puts_coerceRef (by rfl) v
  | array of dims =>
    cases b.erase with
    | prim q => exact .throw _
    | _ => exact puts_coerceRef (by rfl) v

/-! ### Constants and variables -/

/-- The code of a variable that is found. -/
lemma puts_variable {find : Lower (Option Local)} {missing : Unresolved} {found : Option Local}
    {term : Expr} (hfind : P.Tells find fun l => l = found) (ty : Ty) :
    P.Puts P.answered [] (variableOperand term find missing ty).value
    ((P.context other).held found ty) fun v => [v] := by
  refine .placed _ (.tell (.found hfind missing) fun l hl => ?_)
  subst hl
  exact (Puts.load l).bind (b := []) fun v _ => puts_coerce l.ty ty v

lemma puts_receiver : P.Puts P.answered [] receiver ((P.context other).slot 0) fun v => [v] := by
  refine .tell .read fun _ _ => .ite (fun _ => .throw _) fun _ => ?_
  refine Puts.emit rfl rfl fun inv i hi => ?_
  have hslot : i.operand = (0 : Nat) := by
    rw [hi]
    unfold Emission.impliedSlot
    rw [Opcode.action?_opcode]
  show P.session.Effects (Machine.load i.operand >>= Machine.push) _ _ _
  rw [hslot]
  exact (Machine.Session.effects_load 0).push

/-! ### Constants -/

lemma puts_int {ty : Ty} (hty : ty.category = .int ∨ ty.category = .long) (n : Int64) :
    P.Puts P.answered [] (pushConst ⟨ty, .int n⟩) ((P.context other).constant ⟨ty, .int n⟩)
    fun v => [v] := by
  rcases hty with hty | hty
  · have hconst : (P.context other).constant ⟨ty, .int n⟩ = pure (.int n.toInt32) := by
      simp [Context.constant, hty]
    rw [hconst]
    unfold pushConst
    simp only [hty]
    refine .ite (fun _ => .throw _) fun hrange => ?_
    have hval : Int32.ofInt n.toInt = n.toInt32 := by simp
    exact hval ▸ Puts.pushInt _
  · have hconst : (P.context other).constant ⟨ty, .int n⟩ = pure (.long n) := by
      simp [Context.constant, hty]
    rw [hconst]
    unfold pushConst
    simp only [hty]
    exact .pushLong n

/-! ### Calls -/

/-- The value of an operand at a type. -/
lemma puts_as {e : Expr} (he : P.Puts P.answered [] (operand e).value ((P.context other).evaluate e)
    fun v => [v]) (ty : Ty) :
    P.Puts P.answered [] ((operand e).as ty)
    ((P.context other).evaluate e >>= (P.context other).convertedFrom e ty) fun v => [v] := by
  refine he.bind (b := []) fun v _ => .placed _ (.tell (.type _) fun a ha => ?_)
  rw [term_operand] at ha
  unfold Context.convertedFrom
  rw [ha]
  exact puts_coerce a ty v

/-- Arguments are put on the stack one after the other. -/
lemma puts_args (hes : ∀ e ∈ es, P.Puts P.answered [] (operand e).value
    ((P.context other).evaluate e) fun v => [v]) (tys : List Ty) (b : List Value) :
    P.Puts P.answered b ((((operands es).map Operand.as).zip tys).forM fun (arg, ty) => arg ty)
    ((P.context other).arguments es tys) fun vs => vs.reverse ++ b := by
  induction es generalizing tys b with
  | nil =>
    rw [Context.arguments]
    · exact .pure ⟨rfl, rfl⟩
    · simp
  | cons e es ih =>
    cases tys with
    | nil =>
      rw [Context.arguments]
      · exact .pure ⟨rfl, rfl⟩
      · simp
    | cons ty tys =>
      have hcons : (P.context other).arguments (e :: es) (ty :: tys) =
          ((P.context other).evaluate e >>= (P.context other).convertedFrom e ty) >>= fun v =>
            (fun vs => v :: vs) <$> (P.context other).arguments es tys := by
        simp [Context.arguments]
      rw [hcons]
      refine (puts_as (hes e List.mem_cons_self) ty).bind (b := b) fun v _ => ?_
      exact (ih (fun e' he' => hes e' (List.mem_cons_of_mem e he')) tys (v :: b)).fmap
        fun vs e he => by simpa using he

lemma length_operands (es : List Expr) : (operands es).length = es.length := by
  induction es with
  | nil => rfl
  | cons e es ih => simp [operands, ih]

lemma puts_callStatic {m : MethodRef} (hm : m.Spelled)
    (hes : ∀ e ∈ es, P.Puts P.answered [] (operand e).value ((P.context other).evaluate e) fun v =>
    [v]) : P.Puts P.answered [] (operand (.callStatic m es)).value
    ((P.context other).evaluate (.callStatic m es)) fun v => [v] := by
  rw [operand, Context.evaluate]
  refine .placed _ ?_
  unfold callStatic pushArgs
  by_cases hlen : ((operands es).map Operand.as).length = m.params.length
  · have hlength (vs : List Value) (hvs : ((P.context other).arguments es m.params).Returns vs) :
        vs.length = m.params.length := by
      rw [Context.length_of_returns hvs]
      simp only [List.length_map, length_operands] at hlen
      omega
    rw [if_neg (not_ne_iff.2 hlen)]
    have hargs : P.Gives P.answered [] _ ((P.context other).arguments es m.params) fun vs st =>
        st = vs.reverse ∧ vs.length = m.params.length :=
      (puts_args hes m.params []).imp fun vs e hvs he => ⟨he.1, by simpa using he.2, hlength vs hvs⟩
    refine hargs.bind (b := []) ⟨List.replicate _ .null, _, rfl, List.length_replicate⟩
      fun vs st _ hst => ?_
    obtain ⟨rfl, hvs⟩ := hst
    refine .tell .read fun _ hr => ?_
    subst hr
    have hcall : P.Puts P.answered vs.reverse
        (invoke .invokeStatic m.owner.internal m.name m.descriptor (P.env.unit.isInterface m.owner))
          _ fun w => [w] :=
      .invoke rfl rfl (Descriptor.parse_methodDescriptor hm.params (.inr hm.returns))
        (Machine.returnsValue_methodDescriptor m.params hm.returns)
          (by simpa [Machine.CallKind.arity] using hvs)
    rw [List.reverse_reverse] at hcall
    rwa [List.append_nil]
  · rw [if_pos hlen]
    exact .throw _

end Performance

end Lowering

end Classwright
