import Classwright.Proofs.Integral.Expressions

/-!
Operators of integral expressions.

The operand of an expression evaluates as the expression does (`Typed.evaluates`). The proof goes
along the ways in which operands are made from others; `Typed` are the expressions it covers, with
the types of their values.
-/

namespace Classwright.Integral

open Lowering
open Machine (Recorded Value)

namespace Scene

variable {S : Scene} {p q : Prim} {n : Int} {l r : Operand} {a b : Eval Whole} {ty : Ty}

/-! ### Operators -/

/-- The type in which the operands of an operator are computed. -/
def mathType (op : MathOp) (p q : Prim) : Prim :=
  if op.isShift then p.promote
  else if op.isBitwise && p == .boolean && q == .boolean then .boolean
  else p.promote2 q

lemma unboxed_eq (h : ty.erase = .prim p) : ty.unboxed = p := by
  unfold Ty.unboxed
  rw [h]

lemma type_math {op : MathOp} {el er : Expr} {s t : Ty} (hl : el.type = .ok s)
    (hs : s.erase = .prim p) (hr : er.type = .ok t) (ht : t.erase = .prim q) :
    (Expr.math op el er).type = .ok (.prim (mathType op p q)) := by
  simp only [Expr.type, hl, hr]
  show (if op.isShift then Except.ok (Ty.prim s.unboxed.promote)
    else if op.isBitwise && s.unboxed == .boolean && t.unboxed == .boolean then .ok (.prim .boolean)
    else .ok (.prim (s.unboxed.promote2 t.unboxed))) = _
  rw [unboxed_eq hs, unboxed_eq ht, mathType]
  split_ifs <;> rfl

lemma whole_cases (hp : isWhole p) (hb : p ≠ .boolean) :
    p = .byte ∨ p = .short ∨ p = .char ∨ p = .int ∨ p = .long := by
  cases p <;> simp_all [isWhole]

/-- Promotion of an operand, as evaluation does it. -/
lemma promote_eq (hp : isWhole p) (hb : p ≠ .boolean) :
    p.promote = promote p ∧ IsWord (promote p) := by
  rcases whole_cases hp hb with rfl | rfl | rfl | rfl | rfl <;>
    exact ⟨rfl, by simp [IsWord, promote]⟩

lemma promote2_eq (hp : isWhole p) (hq : isWhole q) (hb : ¬ (p = .boolean ∧ q = .boolean)) :
    p.promote2 q = promote2 p q ∧ IsWord (promote2 p q) := by
  have hcases {r : Prim} (hr : isWhole r) :
      r = .boolean ∨ r = .byte ∨ r = .short ∨ r = .char ∨ r = .int ∨ r = .long :=
    (em (r = .boolean)).imp_right (whole_cases hr)
  rcases hcases hp with rfl | rfl | rfl | rfl | rfl | rfl <;>
    rcases hcases hq with rfl | rfl | rfl | rfl | rfl | rfl <;>
      first | exact ⟨rfl, by simp [IsWord, promote2]⟩ | exact absurd ⟨rfl, rfl⟩ hb

variable {op : MathOp} {x y : Int} {t : Prim} {env : Env}

lemma apply_ne_undefined (op : MathOp) (p : Prim) (x y : Int) :
    ((apply op p x y) >>= fun r => .ok (Whole.mk q r)) ≠ .error .undefined := by
  rcases apply_cases op p x y with ⟨-, -, h⟩ | ⟨-, r, h⟩ <;> simp [h, bind, Except.bind]

/-- The instruction of an operator, whose outcome is that of the operator on words. -/
lemma yields_operator {out : Eval Whole} (hp : IsWord p) (hop : op.isShift = false)
    (hx : InRange p x) (hy : InRange p y) (hc : ∀ w, out = .ok w → w.ty = t ∧ InRange t w.val)
    (hout : out ≠ .error .undefined)
    (heq : outcome out = outcome (apply op p x y >>= fun r => .ok ⟨p, r⟩)) :
    S.Yields [Whole.toValue ⟨p, y⟩, Whole.toValue ⟨p, x⟩] (emit (mathAction op (numOf p.category)))
    t out := by
  refine .emit (y := Machine.arith (mathAction op (numOf p.category)) (Whole.toValue ⟨p, x⟩)
    (Whole.toValue ⟨p, y⟩)) ?_ ?_ hc hout (fun inv i st s => ?_) (funext fun s => ?_)
  · cases op <;> rfl
  · cases op <;> rfl
  · cases op <;> first | rfl | cases hop
  · rw [arith_eq hp hop hx hy, heq]
    cases apply op p x y <;> rfl

/-- The instruction of an operator on words. -/
lemma yields_arith (hp : IsWord p) (hop : op.isShift = false) (hx : InRange p x)
    (hy : InRange p y) : S.Yields [Whole.toValue ⟨p, y⟩, Whole.toValue ⟨p, x⟩]
    (emit (mathAction op (numOf p.category))) p (apply op p x y >>= fun r => .ok ⟨p, r⟩) := by
  refine yields_operator hp hop hx hy (fun w hw => ?_) (apply_ne_undefined op p x y) rfl
  obtain ⟨r, hr, hw⟩ := Except.bind_eq_ok_iff.1 hw
  obtain rfl := Except.ok.inj hw
  exact ⟨rfl, (bitOp_ofInt hp hop hx hy hr).1⟩

/-- The instruction of an operator on booleans. -/
lemma yields_logic (hop : op.isBitwise) (hx : InRange .boolean x) (hy : InRange .boolean y) :
    S.Yields [Whole.toValue ⟨.boolean, y⟩, Whole.toValue ⟨.boolean, x⟩]
      (emit (mathAction op .int)) .boolean
      (apply op .boolean x y >>= fun r => .ok ⟨.boolean, r⟩) := by
  have hbit {n : Int} (hn : InRange .boolean n) : n = 0 ∨ n = 1 := by
    obtain ⟨h0, h2⟩ := hn
    omega
  have hshift : op.isShift = false := by cases op <;> first | rfl | cases hop
  have happ : ∃ r, apply op .boolean x y = .ok r ∧ InRange .boolean r ∧
      apply op .int x y = .ok r := by
    rcases hbit hx with rfl | rfl <;> rcases hbit hy with rfl | rfl <;> cases op <;>
      first | exact ⟨_, rfl, by decide, rfl⟩ | cases hop
  obtain ⟨r, hr, hrange, hint⟩ := happ
  rw [hr]
  refine yields_operator (p := .int) (.inl rfl) hshift hx.ofBoolean hy.ofBoolean (fun w hw => ?_)
    nofun (by rw [hint]; rfl)
  obtain rfl := Except.ok.inj hw
  exact ⟨rfl, hrange⟩

/-- A distance counts only as far as its low bits do. -/
lemma apply_wrap (hp : IsWord p) (hop : op.isShift) (x y : Int) :
    apply op p x (wrap .int y) = apply op p x y := by
  have hmod : wrap .int y % width p = y % width p := by
    rcases hp with rfl | rfl
    · show y.bmod (2 ^ 32) % 32 = y % 32
      rw [Int.bmod_def]
      split <;> omega
    · show y.bmod (2 ^ 32) % 64 = y % 64
      rw [Int.bmod_def]
      split <;> omega
  cases op with
  | shl | shr | ushr => simp only [apply, hmod]
  | _ => cases hop

lemma yields_shift (hp : IsWord p) (hop : op.isShift) (hx : InRange p x) (hy : InRange .int y) :
    S.Yields [Whole.toValue ⟨.int, y⟩, Whole.toValue ⟨p, x⟩]
      (emit (mathAction op (numOf p.category))) p
      (apply op p x y >>= fun r => .ok ⟨p, r⟩) := by
  obtain ⟨r, happ, hr, -⟩ := shift_eq hp hop hx hy {}
  rw [happ]
  refine .emit (y := Machine.shift (shiftOp op) (p == .long) (Whole.toValue ⟨p, x⟩)
    (.int (.ofInt y))) ?_ ?_ (fun w hw => ?_) nofun (fun inv i st s => ?_) (funext fun s => ?_)
  · cases op <;> rfl
  · cases op <;> rfl
  · obtain rfl := Except.ok.inj hw
    exact ⟨rfl, hr⟩
  · rcases hp with rfl | rfl <;> cases op <;> first | rfl | cases hop
  · obtain ⟨r', happ', -, hs⟩ := shift_eq hp hop hx hy s
    obtain rfl := Except.ok.inj (happ.symm.trans happ')
    exact hs

/-- The distance of a shift, as an `int`. -/
lemma Evaluates.distance (hr : S.Evaluates r q b) (hq : q ≠ .boolean) :
    S.Yields [] (shiftDistance r) .int (b >>= fun w => .ok ⟨.int, wrap .int w.val⟩) := by
  obtain ⟨t, hty, het⟩ := hr.type
  refine .tell (.sound _) fun t' ht' => ?_
  obtain rfl := Except.ok.inj (hty.symm.trans ht')
  have hun : unboxed? t = some q := by
    unfold unboxed?
    rw [het]
    rcases whole_cases hr.whole hq with rfl | rfl | rfl | rfl | rfl <;> rfl
  rw [hun]
  by_cases hl : q = .long
  · subst hl
    have hlong := hr.as (.prim .long) rfl rfl
    have hout : (b >>= fun w => Except.ok (Whole.mk .int (wrap .int w.val))) =
        (b >>= fun w => .ok (Whole.mk .long w.val)) >>=
          fun w => Except.ok (Whole.mk .int (wrap .int w.val)) := by
      cases b <;> rfl
    rw [hout]
    refine hlong.bind (b := []) rfl fun n _ hn =>
      Yields.of_pure (puts_conversion fun s => ?_) ⟨rfl, inRange_wrap (by simp) _⟩
    show _ = (Except.ok (Value.int (.ofInt (wrap .int n))), s)
    rw [wrap, int32_ofInt_bmod]
    exact convert_l2i hn s
  · have hint := hr.as (.prim .int) rfl rfl
    have hpro : q.promote = .int := by
      rcases whole_cases hr.whole hq with rfl | rfl | rfl | rfl | rfl <;>
        first | rfl | exact absurd rfl hl
    have hout : (b >>= fun w => Except.ok (Whole.mk .int (wrap .int w.val))) =
        (b >>= fun w => .ok (Whole.mk .int w.val)) >>=
          fun w => Except.ok (Whole.mk .int (wrap .int w.val)) := by
      cases b <;> rfl
    rw [Option.map_some, hpro, hout]
    exact hint.map fun n hn => ⟨n, by rw [wrap_eq_of_inRange hn], rfl, hn⟩

/-- Two operands and an instruction on both. -/
lemma Yields.two {x y z : Lower Unit} {f : Whole → Whole → Eval Whole} (hx : S.Yields [] x p a)
    (hp : isWhole p)
    (hy : S.Yields [] y q b) (hq : isWhole q) (hz : ∀ m n, InRange p m → InRange q n →
      S.Yields [Whole.toValue ⟨q, n⟩, Whole.toValue ⟨p, m⟩] z t (f ⟨p, m⟩ ⟨q, n⟩)) :
    S.Yields [] (do x; y; z) t (do f (← a) (← b)) :=
  hx.bind (b := []) hp fun m _ hm => hy.bind (b := [_]) hq fun n _ hn => hz m n hm hn

/-- An operator in a type, on the results of two evaluations. -/
def mathIn (op : MathOp) (t : Prim) (a b : Eval Whole) : Eval Whole := do
  let v ← a
  let w ← b
  return ⟨t, ← apply op t v.val w.val⟩

/-- The instruction of an operator, on operands that are brought to its type. -/
lemma Evaluates.operate (hl : S.Evaluates l p a) (hr : S.Evaluates r q b) (ht : isWhole t)
    {m : Num} (h : ∀ x y, InRange t x → InRange t y →
      S.Yields [Whole.toValue ⟨t, y⟩, Whole.toValue ⟨t, x⟩] (emit (mathAction op m)) t
        (apply op t x y >>= fun r => .ok ⟨t, r⟩)) :
    S.Yields [] (do
      l.as (.prim t)
      r.as (.prim t)
      emit (mathAction op m)) t (mathIn op t a b) := by
  have h := (hl.as (.prim t) rfl ht).two ht (hr.as (.prim t) rfl ht) ht
    (f := fun v w => apply op t v.val w.val >>= fun r => .ok ⟨t, r⟩) h
  cases a with
  | error e => exact h
  | ok v => cases b <;> exact h

lemma Evaluates.shifts (hl : S.Evaluates l p a) (hr : S.Evaluates r q b) (hq : q ≠ .boolean)
    (ht : IsWord t) (hop : op.isShift) :
    S.Yields [] (do
      l.as (.prim t)
      shiftDistance r
      emit (mathAction op (numOf t.category))) t (mathIn op t a b) := by
  have htw : isWhole t := by rcases ht with rfl | rfl <;> rfl
  have h := (hl.as (.prim t) rfl htw).two htw (hr.distance hq) rfl
    (f := fun v w => apply op t v.val w.val >>= fun r => .ok ⟨t, r⟩) fun m n => yields_shift ht hop
  cases a with
  | error e => exact h
  | ok v =>
    cases b with
    | error e => exact h
    | ok w =>
      have hwrap : mathIn op t (.ok v) (.ok w) =
          apply op t v.val (wrap .int w.val) >>= fun r => .ok ⟨t, r⟩ := by
        rw [apply_wrap ht hop]
        rfl
      rw [hwrap]
      exact h

/-- Lowering finds the type of an operator as evaluation does: that of numbers, or `boolean` for a
logical operator. -/
lemma mathType_cases (hp : isWhole p) (hq : isWhole q)
    (hop : p = .boolean ∨ q = .boolean → op.isBitwise) :
    mathType op p q = operandType op p q ∧
    (op.isShift ∧ q ≠ .boolean ∧ IsWord (mathType op p q) ∨ op.isBitwise ∧ p = .boolean ∧
    q = .boolean ∧ mathType op p q = .boolean ∨ op.isShift = false ∧ IsWord (mathType op p q)) := by
  unfold mathType operandType
  cases hs : op.isShift with
  | true =>
    have hb : op.isBitwise = false := by cases op <;> first | rfl | cases hs
    have hnp : p ≠ .boolean := fun h => by simp [hop (.inl h)] at hb
    have hnq : q ≠ .boolean := fun h => by simp [hop (.inr h)] at hb
    obtain ⟨heq, hw⟩ := promote_eq hp hnp
    exact ⟨heq, .inl ⟨rfl, hnq, heq ▸ hw⟩⟩
  | false =>
    by_cases hb : p = .boolean ∧ q = .boolean
    · obtain ⟨rfl, rfl⟩ := hb
      have hbit := hop (.inl rfl)
      exact ⟨by simp [hbit], .inr (.inl ⟨hbit, rfl, rfl, by simp [hbit]⟩)⟩
    · obtain ⟨heq, hw⟩ := promote2_eq hp hq hb
      have hif : (op.isBitwise && p == .boolean && q == .boolean) = false := by
        simp only [Bool.and_eq_false_imp, Bool.and_eq_true, beq_iff_eq, beq_eq_false_iff_ne]
        exact fun h hq => hb ⟨h.2, hq⟩
      simp only [hif, Bool.false_eq_true, if_false, if_neg hb, heq, true_and]
      exact .inr (.inr hw)

lemma math_eq (ha : ∀ w, a = .ok w → w.ty = p) (hb : ∀ w, b = .ok w → w.ty = q) :
    (do (← a).math op (← b)) = mathIn op (operandType op p q) a b := by
  cases a with
  | error e => rfl
  | ok v =>
    cases b with
    | error e => rfl
    | ok w =>
      rw [← ha v rfl, ← hb w rfl]
      rfl

lemma Evaluates.math (hl : S.Evaluates l p a) (hr : S.Evaluates r q b)
    (hop : p = .boolean ∨ q = .boolean → op.isBitwise) :
    S.Evaluates (Lowering.ofValue (.math op l.term r.term) (Lowering.mathValue op l r))
    (mathType op p q) (do (← a).math op (← b)) := by
  obtain ⟨s, hls, hs⟩ := hl.type
  obtain ⟨t, hrt, ht⟩ := hr.type
  have htype : (Expr.math op l.term r.term).type = _ := type_math hls hs hrt ht
  obtain ⟨heq, hcases⟩ := mathType_cases hl.whole hr.whole hop
  have hword (h : IsWord (mathType op p q)) :
      mathType op p q ≠ .boolean ∧ (mathType op p q).isNumeric ∧
      ∀ c, (c && (mathType op p q).category != .int && (mathType op p q).category != .long) =
        false := by
    rcases h with h | h <;> rw [h] <;> simp [Prim.isNumeric, Prim.rank, Prim.category]
  have hwhole (h : IsWord (mathType op p q)) : isWhole (mathType op p q) := by
    rcases h with h | h <;> rw [h] <;> rfl
  rw [math_eq hl.typed hr.typed, ← heq]
  refine .ofValue ⟨_, htype, rfl⟩ ?_ ?_ (.tell (.sound _) fun u hu => ?_)
  · rcases hcases with ⟨-, -, h⟩ | ⟨-, -, -, h⟩ | ⟨-, h⟩
    · exact hwhole h
    · rw [h]
      rfl
    · exact hwhole h
  · intro w hw
    obtain ⟨v, -, hw⟩ := Except.bind_eq_ok_iff.1 hw
    obtain ⟨v', -, hw⟩ := Except.bind_eq_ok_iff.1 hw
    obtain ⟨r, -, hw⟩ := Except.bind_eq_ok_iff.1 hw
    obtain rfl := Except.ok.inj hw
    rfl
  · obtain rfl := Except.ok.inj (htype.symm.trans hu)
    rw [unboxed_eq (p := mathType op p q) rfl]
    rcases hcases with ⟨hs, hq, hw⟩ | ⟨hbit, rfl, rfl, h⟩ | ⟨hs, hw⟩
    · obtain ⟨hb, hnum, hcat⟩ := hword hw
      simp only [hb, hnum, hcat, hs, if_true, if_false, Bool.not_true, Bool.false_eq_true]
      exact hl.shifts hr hq hw hs
    · simp only [h, if_true]
      exact hl.operate hr rfl fun x y => yields_logic hbit
    · obtain ⟨hb, hnum, hcat⟩ := hword hw
      simp only [hb, hnum, hcat, hs, if_false, Bool.not_true, Bool.false_eq_true]
      exact hl.operate hr (hwhole hw) fun x y => yields_arith hw hs

lemma neg_eq (ha : ∀ w, a = .ok w → w.ty = p) (hb : p ≠ .boolean) :
    a >>= Whole.neg = (a >>= fun w => .ok (Whole.mk (promote p) w.val)) >>= fun w =>
      .ok (Whole.mk (promote p) (wrap (promote p) (-w.val))) := by
  cases a with
  | error e => rfl
  | ok v =>
    show v.neg = _
    rw [Whole.neg, ha v rfl, if_neg hb]
    rfl

lemma Evaluates.neg (hl : S.Evaluates l p a) :
    S.Evaluates (Lowering.ofValue (.neg l.term) (Lowering.negValue l)) p.promote
    (a >>= Whole.neg) := by
  obtain ⟨t, hty, ht⟩ := hl.type
  have htype : (Expr.neg l.term).type = .ok (.prim p.promote) := by
    simp only [Expr.type, hty]
    exact congrArg (fun r : Prim => Except.ok (Ty.prim r.promote)) (unboxed_eq ht)
  by_cases hb : p = .boolean
  · subst hb
    refine .ofValue ⟨_, htype, rfl⟩ rfl (fun w hw => ?_) (.tell (.sound _) fun u hu => ?_)
    · obtain ⟨v, hv, hw⟩ := Except.bind_eq_ok_iff.1 hw
      rw [Whole.neg, if_pos (hl.typed v hv)] at hw
      cases hw
    · obtain rfl := Except.ok.inj (hty.symm.trans hu)
      rw [unboxed_eq ht]
      exact .throw _
  · obtain ⟨heq, hword⟩ := promote_eq hl.whole hb
    have hw : isWhole (promote p) := by rcases hword with h | h <;> rw [h] <;> rfl
    rw [heq] at htype ⊢
    rw [neg_eq hl.typed hb]
    refine .ofValue ⟨_, htype, rfl⟩ hw (fun w hw => ?_) (.tell (.sound _) fun u hu => ?_)
    · obtain ⟨v, -, hw⟩ := Except.bind_eq_ok_iff.1 hw
      obtain rfl := Except.ok.inj hw
      rfl
    · obtain rfl := Except.ok.inj (hty.symm.trans hu)
      rw [unboxed_eq ht, heq]
      refine .ite (fun h => .throw _) fun _ =>
        (hl.as (.prim (promote p)) rfl hw).bind (b := []) hw fun n _ hn => ?_
      refine Yields.emit rfl rfl (fun v hv => ?_) nofun (fun inv i st s => rfl)
        (funext fun s => negate_eq hword s)
      obtain rfl := Except.ok.inj hv
      exact ⟨rfl, hword.inRange_wrap _⟩

lemma Evaluates.cast (hl : S.Evaluates l p a) (ht : ty.erase = .prim q) (hq : isWhole q) :
    S.Evaluates (Lowering.ofValue (.cast ty l.term) (do
      l.value
      Lowering.cast (← l.type) ty)) q (a >>= fun w => .ok ⟨q, wrap q w.val⟩) := by
  obtain ⟨s, hty, hs⟩ := hl.type
  refine .ofValue ⟨ty, rfl, ht⟩ hq (fun w hw => ?_) ?_
  · obtain ⟨v, -, hw⟩ := Except.bind_eq_ok_iff.1 hw
    obtain rfl := Except.ok.inj hw
    rfl
  · refine hl.value.bind (b := []) hl.whole fun n _ hn => .tell (.sound _) fun s' hs' => ?_
    obtain rfl := Except.ok.inj (hty.symm.trans hs')
    exact yields_cast hs ht hl.whole hq hn

/-! ### Comparisons -/

variable {cmp : CompareOp} {want : Bool}

lemma toInt_toValue (hp : p ≠ .long) (hn : InRange .int n) :
    (Recorded.of (Machine.toInt (Whole.toValue ⟨p, n⟩))) = pure (.ofInt n) ∧
    (Int32.ofInt n).toInt = n := by
  rw [show Whole.toValue ⟨p, n⟩ = .int (.ofInt n) from if_neg hp]
  exact ⟨rfl, toInt_int32 hn⟩

lemma compareNumbers_toValue {x y : Int} (ht : IsWord t ∨ t = .boolean) (hx : InRange t x)
    (hy : InRange t y) : Conditions.compareNumbers cmp t (Whole.toValue ⟨t, x⟩)
    (Whole.toValue ⟨t, y⟩) = pure (holds cmp x y) := by
  by_cases hl : t = .long
  · subst hl
    have hlong (n : Int) :
        Recorded.of (Machine.toLong (Whole.toValue ⟨.long, n⟩)) = pure (.ofInt n) := rfl
    have hcat : Prim.long.category = .long := rfl
    rw [Conditions.compareNumbers, if_pos hcat, hlong, pure_bind, hlong, pure_bind, toInt_int64 hx,
      toInt_int64 hy]
  · have hint {n : Int} (hn : InRange t n) : t.category ≠ .long ∧ InRange .int n := by
      rcases ht with (rfl | rfl) | rfl
      · exact ⟨nofun, hn⟩
      · exact absurd rfl hl
      · exact ⟨nofun, hn.ofBoolean⟩
    obtain ⟨htake, hval⟩ := toInt_toValue hl (hint hx).2
    obtain ⟨htake', hval'⟩ := toInt_toValue hl (hint hy).2
    rw [Conditions.compareNumbers, if_neg (hint hx).1, htake, pure_bind, htake', pure_bind,
      hval, hval']

lemma jumps_orderJump {x y : Int} (ht : IsWord t ∨ t = .boolean) (hx : InRange t x)
    (hy : InRange t y) (greater : Bool) :
    S.Jumps [Whole.toValue ⟨t, y⟩, Whole.toValue ⟨t, x⟩]
    (orderJump t (condOf (if want then cmp else cmp.negate)) greater)
      (.ok (holds cmp x y)) want := by
  have hne : t ≠ .float ∧ t ≠ .double := by
    rcases ht with (rfl | rfl) | rfl <;> exact ⟨nofun, nofun⟩
  have h := @Performance.branches_orderJump S.stage S.mode want t hne cmp greater
    (Whole.toValue ⟨t, x⟩) (Whole.toValue ⟨t, y⟩)
  rwa [compareNumbers_toValue ht hx hy] at h

lemma jumps_ifZero (hp : p ≠ .long) (hn : InRange .int n) :
    S.Jumps [Whole.toValue ⟨p, n⟩] (branch (.ifZero (condOf (if want then cmp else cmp.negate))))
      (.ok (holds cmp n 0)) want := by
  obtain ⟨htake, hval⟩ := toInt_toValue hp hn
  have h := @Performance.branches_ifZero S.stage S.mode want cmp (Whole.toValue ⟨p, n⟩)
  rwa [htake, pure_bind, hval] at h

/-- The comparison of the value on top with an operand, at a type. A zero is not pushed. -/
def compareWith (r : Operand) (t : Prim) (c : Cond) (greater : Bool) (target : Label) :
    Lower Unit := do
  if t.category == .int && isZeroConst r.term then branch (.ifZero c) target
  else
    r.as (.prim t)
    orderJump t c greater target

lemma jumps_compareWith {x : Int} (hr : S.Evaluates r q b)
    (hzero : isZeroConst r.term → ∃ s, b = .ok ⟨s, 0⟩) (ht : IsWord t ∨ t = .boolean)
    (hx : InRange t x) (greater : Bool) :
    S.Jumps [Whole.toValue ⟨t, x⟩]
    (compareWith r t (condOf (if want then cmp else cmp.negate)) greater)
      (b >>= fun w => .ok (holds cmp x w.val)) want := by
  have hwhole : isWhole t := by rcases ht with (rfl | rfl) | rfl <;> rfl
  refine fun l => .ite (fun hz => ?_) fun _ => ?_
  · obtain ⟨hcat, hz⟩ := Bool.and_eq_true_iff.1 hz
    obtain ⟨s, rfl⟩ := hzero hz
    rcases ht with (rfl | rfl) | rfl
    · exact jumps_ifZero (by decide) hx l
    · cases hcat
    · exact jumps_ifZero (by decide) hx.ofBoolean l
  · have hout : (b >>= fun w => .ok (holds cmp x w.val)) =
        (b >>= fun w => .ok (Whole.mk t w.val)) >>= fun w => Except.ok (holds cmp x w.val) := by
      cases b <;> rfl
    rw [hout]
    exact (hr.as (.prim t) rfl hwhole).bind (b := [_]) hwhole fun n _ hn =>
      jumps_orderJump ht hx hn greater l

lemma unboxed?_eq (hp : isWhole p) (h : ty.erase = .prim p) : unboxed? ty = some p := by
  unfold unboxed?
  rw [h]
  cases p <;> first | rfl | cases hp

/-- Two operands are compared as booleans or as numbers. -/
lemma tells_comparisonType {s u : Ty} (hp : isWhole p) (hq : isWhole q) (hs : s.erase = .prim p)
    (hu : u.erase = .prim q) :
    S.stage.Tells (comparisonType cmp s u) fun t => IsWord t ∨ t = .boolean := by
  unfold comparisonType
  simp only [unboxed?_eq hp hs, unboxed?_eq hq hu]
  refine .ite (fun _ => .ite (fun _ => .pure (.inr rfl)) fun _ => .throw _) fun hb =>
    .pure (.inl ?_)
  obtain ⟨heq, hw⟩ := promote2_eq hp hq fun h => hb (by simp [h.1])
  exact heq ▸ hw

/-- What a comparison says of the results of two evaluations. -/
def compared (cmp : CompareOp) (a b : Eval Whole) : Eval Bool := do
  let v ← a
  let w ← b
  return holds cmp v.val w.val

lemma Evaluates.compare (hl : S.Evaluates l p a) (hr : S.Evaluates r q b)
    (hzero : isZeroConst r.term → ∃ s, b = .ok ⟨s, 0⟩) (want : Bool) :
    S.Jumps [] (compareJump cmp l r want) (compared cmp a b) want := by
  obtain ⟨s, hls, hs⟩ := hl.type
  obtain ⟨u, hru, hu⟩ := hr.type
  refine fun target => .tell (.sound _) fun s' hs' => .tell (.sound _) fun u' hu' => ?_
  obtain rfl := Except.ok.inj (hls.symm.trans hs')
  obtain rfl := Except.ok.inj (hru.symm.trans hu')
  have href : s.isReference = false := by simp [Ty.isReference, hs, Erased.isReference]
  simp only [href, Bool.false_and, Bool.false_eq_true, if_false]
  refine .tell (tells_comparisonType hl.whole hr.whole hs hu) fun t hword => ?_
  have hwhole : isWhole t := by rcases hword with (rfl | rfl) | rfl <;> rfl
  have hout : compared cmp a b =
      (a >>= fun v => .ok (Whole.mk t v.val)) >>= fun v =>
        b >>= fun w => Except.ok (holds cmp v.val w.val) := by
    cases a with
    | error e => rfl
    | ok v => cases b <;> rfl
  rw [hout]
  exact (hl.as (.prim t) rfl hwhole).bind (b := []) hwhole fun n _ hn =>
    jumps_compareWith hr hzero hword hn (cmp == .lt || cmp == .le) target

/-! ### Conditions -/

/-- What two conditions say together; the second counts only if the first is `all`. -/
def jointly (all : Bool) (a b : Eval Whole) : Eval Bool := do
  if (← a).isTrue = all then return (← b).isTrue else return !all

lemma Evaluates.both (hl : S.Evaluates l p a) (hr : S.Evaluates r q b) (all want : Bool) :
    S.Jumps [] (bothJump all l r want) (jointly all a b) want := by
  have hout : meant (jointly all a b) = (meant (truth a)).both all (meant (truth b)) := by
    unfold Recorded.both jointly truth
    rw [meant_bind, meant_bind, bind_assoc]
    refine bind_congr fun v => ?_
    show _ = if v.isTrue = all then meant (b >>= fun w => .ok w.isTrue) else pure !all
    split_ifs <;> rfl
  unfold Jumps
  rw [hout]
  exact Performance.Branches.both hl.jump hr.jump want

lemma Evaluates.cond {test : Operand} {p' : Prim} {c : Eval Whole} (ht : S.Evaluates test t c)
    (hl : S.Evaluates l p a) (hr : S.Evaluates r p' b) (hty : ty.erase = .prim q) (hq : isWhole q) :
    S.Evaluates (Lowering.ofValue (.cond test.term l.term r.term ty)
    (Lowering.condValue test l r ty)) q
      (c >>= fun v => (if v.isTrue then a else b) >>= fun w => retyped (some w) ty) := by
  have hout : meant (c >>= fun v => (if v.isTrue then a else b) >>= fun w => retyped (some w) ty) =
      meant (truth c) >>= fun z => if z = false then meant (b >>= fun w => .ok (Whole.mk q w.val))
        else meant (a >>= fun w => .ok (Whole.mk q w.val)) := by
    unfold truth
    rw [meant_bind, meant_bind, bind_assoc]
    refine bind_congr fun v => ?_
    simp only [retyped_some _ hty]
    show _ = if v.isTrue = false then meant (b >>= fun w => .ok (Whole.mk q w.val)) else _
    cases v.isTrue <;> rfl
  refine .ofValue ⟨ty, rfl, hty⟩ hq (fun w hw => ?_) ?_
  · obtain ⟨v, -, hw⟩ := Except.bind_eq_ok_iff.1 hw
    obtain ⟨v', -, hw⟩ := Except.bind_eq_ok_iff.1 hw
    exact ty_of_retyped hty hw
  · unfold Yields
    rw [hout]
    refine Performance.Gives.diamond ⟨⟨q, 0⟩, _, rfl, rfl, ?_⟩ (ht.jump false) (hl.as ty hty hq)
      (hr.as ty hty hq)
    cases q <;> first | decide | cases hq

end Scene

/-! ### Evaluation, by the results of the parts -/

section

variable {ρ : Store} {l r e : Expr}

lemma eval_compare (op : CompareOp) : eval ρ (.compare op l r) =
    Scene.compared op (eval ρ l) (eval ρ r) >>= fun b => .ok (.ofBool b) := by
  rw [eval]
  cases eval ρ l <;> cases eval ρ r <;> rfl

lemma eval_and : eval ρ (.and l r) = Scene.jointly true (eval ρ l) (eval ρ r) >>=
    fun b => .ok (.ofBool b) := by
  rw [eval]
  rcases eval ρ l with _ | v
  · rfl
  · simp only [Scene.jointly, bind, Except.bind]
    cases v.isTrue <;> cases eval ρ r <;> rfl

lemma eval_or : eval ρ (.or l r) = Scene.jointly false (eval ρ l) (eval ρ r) >>=
    fun b => .ok (.ofBool b) := by
  rw [eval]
  rcases eval ρ l with _ | v
  · rfl
  · simp only [Scene.jointly, bind, Except.bind]
    cases v.isTrue <;> cases eval ρ r <;> rfl

lemma eval_isTrue : eval ρ (.isTrue e) = (eval ρ e >>= fun w => .ok w.isTrue) >>=
    fun b => .ok (.ofBool b) := by
  rw [eval]
  cases eval ρ e <;> rfl

lemma eval_isFalse : eval ρ (.isFalse e) = (eval ρ e >>= fun w => .ok !w.isTrue) >>=
    fun b => .ok (.ofBool b) := by
  rw [eval]
  cases eval ρ e <;> rfl

lemma eval_cond {yes no : Expr} {ty : Ty} : eval ρ (.cond e yes no ty) = eval ρ e >>= fun v =>
    (if v.isTrue then eval ρ yes else eval ρ no) >>= fun w => retyped (some w) ty := by
  rw [eval]
  rcases eval ρ e with _ | v
  · rfl
  · simp only [bind, Except.bind]
    cases v.isTrue <;> rfl

end

/-! ### Expressions -/

/-- Expressions over `boolean` and the integral types, with the types of their values. -/
inductive Typed : Expr → Prim → Prop where
  | number {p : Prim} {v : Int64} (hp : isWhole p) (hb : p ≠ .boolean) (hv : InRange p v.toInt) :
      Typed (.const ⟨.prim p, .int v⟩) p
  | bool (b : Bool) : Typed (.const (.bool b)) .boolean
  | localVar (name : String) {ty : Ty} {p : Prim} (hty : ty.erase = .prim p) (hp : isWhole p) :
      Typed (.localVar name ty) p
  | param (name : String) {ty : Ty} {p : Prim} (hty : ty.erase = .prim p) (hp : isWhole p) :
      Typed (.param name ty) p
  | math {op : MathOp} {l r : Expr} {p q : Prim} (hl : Typed l p) (hr : Typed r q)
      (hop : p = .boolean ∨ q = .boolean → op.isBitwise) : Typed (.math op l r) (operandType op p q)
  | neg {e : Expr} {p : Prim} (h : Typed e p) : Typed (.neg e) p.promote
  | cast {ty : Ty} {e : Expr} {p q : Prim} (h : Typed e p) (hty : ty.erase = .prim q)
      (hq : isWhole q) :
      Typed (.cast ty e) q
  | compare (op : CompareOp) {l r : Expr} {p q : Prim} (hl : Typed l p) (hr : Typed r q) :
      Typed (.compare op l r) .boolean
  | and {l r : Expr} {p q : Prim} (hl : Typed l p) (hr : Typed r q) : Typed (.and l r) .boolean
  | or {l r : Expr} {p q : Prim} (hl : Typed l p) (hr : Typed r q) : Typed (.or l r) .boolean
  | isTrue {e : Expr} {p : Prim} (h : Typed e p) : Typed (.isTrue e) .boolean
  | isFalse {e : Expr} {p : Prim} (h : Typed e p) : Typed (.isFalse e) .boolean
  | cond {test yes no : Expr} {ty : Ty} {t p p' q : Prim} (ht : Typed test t) (hy : Typed yes p)
      (hn : Typed no p') (hty : ty.erase = .prim q) (hq : isWhole q) :
        Typed (.cond test yes no ty) q

namespace Typed

variable {e : Expr} {p : Prim}

lemma term (h : Typed e p) : (operand e).term = e := by
  cases h <;> rfl

lemma present (h : Typed e p) : (operand e).term.isAbsent = false := by
  cases h <;> rfl

lemma eval_zero (h : Typed e p) (hz : isZeroConst e) (ρ : Store) : ∃ t, eval ρ e = .ok ⟨t, 0⟩ := by
  cases h with
  | @number p v hp hb hv =>
    obtain rfl : v = 0 := by simpa [isZeroConst, Constant.isZero, Constant.int?] using hz
    exact ⟨p, rfl⟩
  | bool b =>
    cases b with
    | true => cases hz
    | false => exact ⟨.boolean, rfl⟩
  | _ => cases hz

/-- Lowering an expression gives code that evaluates it. -/
lemma evaluates (h : Typed e p) (S : Scene) : S.Evaluates (operand e) p (eval S.store e) := by
  induction h with
  | number hp hb hv => exact .number (Scene.whole_cases hp hb) hv
  | bool b => exact .bool b
  | localVar name hty hp => exact .localVar name hty hp
  | param name hty hp => exact .param name hty hp
  | math hl hr hop ihl ihr =>
    have h := ihl.math ihr hop
    rwa [hl.term, hr.term, (Scene.mathType_cases ihl.whole ihr.whole hop).1] at h
  | neg h ih =>
    have h' := ih.neg
    rwa [h.term] at h'
  | cast h hty hq ih =>
    have h' := ih.cast hty hq
    rw [h.term] at h'
    simp only [eval, hty]
    exact h'
  | compare op hl hr ihl ihr =>
    rw [eval_compare]
    exact .ofJump rfl (ihl.compare ihr fun hz => hr.eval_zero (hr.term ▸ hz) S.store)
  | and hl hr ihl ihr =>
    rw [eval_and]
    exact .ofJump rfl (ihl.both ihr true)
  | or hl hr ihl ihr =>
    rw [eval_or]
    exact .ofJump rfl (ihl.both ihr false)
  | isTrue h ih =>
    rw [eval_isTrue]
    exact .ofJump rfl ih.jump
  | @isFalse e p h ih =>
    rw [eval_isFalse]
    refine .ofJump rfl fun want => ?_
    have hneg : meant (eval S.store e >>= fun w => .ok !w.isTrue) =
        (fun c => !c) <$> meant (Scene.truth (eval S.store e)) := by
      unfold Scene.truth
      rw [meant_bind, meant_bind, map_bind]
      rfl
    unfold Scene.Jumps
    rw [hneg]
    exact (ih.jump !want).not
  | cond ht hy hn hty hq iht ihy ihn =>
    have h := iht.cond ihy ihn hty hq
    rwa [ht.term, hy.term, hn.term, ← eval_cond] at h

end Typed

end Classwright.Integral
