import Classwright.Proofs.Integral.Evaluation

/-!
Integral expressions.

An operand evaluates as an expression does, whether its code leaves a value or takes a branch
(`Evaluates`). This is so of constants and variables, and it is kept by the ways in which an operand
is known by its value or by its branch alone.
-/

namespace Classwright.Integral

open Lowering
open Machine (Recorded Value)

/-! ### Conversions -/

section

open Performance (Puts)

variable {P : Performance} {M : Mode} {p q : Prim} {n : Int}

/-- An instruction that converts the value on top. -/
lemma puts_conversion {c : Conversion} {v v' : Value}
    (h : ∀ s, Machine.convert c v s = (.ok v', s)) :
    P.Puts M [v] (emit (.convert c)) (pure v') fun u => [u] := by
  have heq : Machine.convert c v = pure v' := funext h
  rw [← Recorded.of_pure, ← heq]
  exact .convert c v

lemma puts_cut (hq : q = .byte ∨ q = .short ∨ q = .char ∨ q = .int) (hn : p = .long ∨ InRange p n) :
    P.Puts M [.int (.ofInt n)] (cut p q) (pure (Whole.toValue ⟨q, wrap q n⟩)) fun u => [u] := by
  have hkeep (hv : Value.int (.ofInt n) = Whole.toValue ⟨q, wrap q n⟩) :
      P.Puts M [.int (.ofInt n)] (pure ()) (pure (Whole.toValue ⟨q, wrap q n⟩)) fun u => [u] :=
    .pure ⟨rfl, by rw [hv]⟩
  rcases hq with rfl | rfl | rfl | rfl
  · refine .ite (fun _ => puts_conversion (convert_i2b n)) fun h => hkeep ?_
    obtain rfl : p = .byte := not_not.1 h
    rw [wrap_eq_of_inRange (hn.resolve_left (by decide))]
    rfl
  · refine .ite (fun _ => puts_conversion (convert_i2s n)) fun h => hkeep ?_
    have hn : InRange .short n := by
      rcases (by tauto : p = .short ∨ p = .byte) with rfl | rfl
      · exact hn.resolve_left (by decide)
      · exact (hn.resolve_left (by decide)).widen rfl rfl
    rw [wrap_eq_of_inRange hn]
    rfl
  · refine .ite (fun _ => puts_conversion (convert_i2c n)) fun h => hkeep ?_
    obtain rfl : p = .char := not_not.1 h
    rw [wrap_eq_of_inRange (hn.resolve_left (by decide))]
    rfl
  · refine hkeep ?_
    show _ = Value.int (.ofInt (wrap .int n))
    rw [wrap, int32_ofInt_bmod]

/-- A number that is brought to a type. -/
lemma puts_convert (hp : p.isNumeric) (hpw : isWhole p) (hq : q.isNumeric) (hqw : isWhole q)
    (hn : InRange p n) : P.Puts M [Whole.toValue ⟨p, n⟩] (convert p q)
    (pure (Whole.toValue ⟨q, wrap q n⟩)) fun u => [u] := by
  have small {r : Prim} (hr : r.isNumeric) (hrw : isWhole r) (hl : r ≠ .long) :
      r = .byte ∨ r = .short ∨ r = .char ∨ r = .int := by
    cases r <;> simp_all [isWhole, Prim.isNumeric, Prim.rank]
  by_cases hpl : p = .long
  · subst hpl
    by_cases hql : q = .long
    · subst hql
      rw [wrap_eq_of_inRange hn]
      exact .pure ⟨rfl, rfl⟩
    · have heq : convert .long q = (do
          emit (.convert .l2i)
          cut .long q) := by
        rcases small hq hqw hql with rfl | rfl | rfl | rfl <;> rfl
      rw [heq]
      exact (puts_conversion (convert_l2i hn)).seq (b := []) fun _ =>
        puts_cut (small hq hqw hql) (.inl rfl)
  · have hpv : Whole.toValue ⟨p, n⟩ = .int (.ofInt n) := if_neg hpl
    rw [hpv]
    by_cases hql : q = .long
    · subst hql
      have heq : convert p .long = (do
          emit (.convert .i2l)
          cut p .long) := by
        rcases small hp hpw hpl with rfl | rfl | rfl | rfl <;> rfl
      have hwiden : InRange .long n ∧ InRange .int n := by
        rcases small hp hpw hpl with rfl | rfl | rfl | rfl <;>
          exact ⟨hn.widen rfl rfl, hn.widen rfl rfl⟩
      rw [heq, wrap_eq_of_inRange hwiden.1]
      exact (puts_conversion (convert_i2l hwiden.2)).seq (b := []) fun _ => .pure ⟨rfl, rfl⟩
    · have heq : convert p q = cut p q := by
        rcases small hp hpw hpl with rfl | rfl | rfl | rfl <;>
          rcases small hq hqw hql with rfl | rfl | rfl | rfl <;> rfl
      rw [heq]
      exact puts_cut (small hq hqw hql) (.inr hn)

end

namespace Scene

variable {S : Scene} {p q : Prim} {n : Int} {w : Whole}

/-- A value at a type that its own widens to. -/
lemma yields_widen (hpw : isWhole p) (hqw : isWhole q) (hn : InRange p n) :
    S.Yields [Whole.toValue ⟨p, n⟩] (widen p q) q (.ok ⟨q, n⟩) := by
  refine .ite (fun h => ?_) fun h => .ite (fun _ => .throw _) fun hb =>
    .ite (fun hw => ?_) fun _ => .throw _
  · subst h
    exact Yields.of_pure (.pure ⟨rfl, rfl⟩) ⟨rfl, hn⟩
  · have hnum {r : Prim} (hr : isWhole r) (hr' : r ≠ .boolean) : r.isNumeric := by
      cases r <;> first | rfl | (cases hr; done) | exact absurd rfl hr'
    have hrange := hn.widen hw hqw
    have hconv := puts_convert (P := S.stage) (M := S.mode) (hnum hpw fun h => hb (.inl h)) hpw
      (hnum hqw fun h => hb (.inr h)) hqw hn
    rw [wrap_eq_of_inRange hrange] at hconv
    exact Yields.of_pure hconv ⟨rfl, hrange⟩

lemma yields_coerce {s t : Ty} (hs : s.erase = .prim p) (ht : t.erase = .prim q) (hpw : isWhole p)
    (hqw : isWhole q) (hn : InRange p n) :
    S.Yields [Whole.toValue ⟨p, n⟩] (coerce s t) q (.ok ⟨q, n⟩) := by
  unfold coerce
  rw [hs, ht]
  exact .ite (fun _ => .throw _) fun _ => .ite (fun _ => .throw _) fun _ => yields_widen hpw hqw hn

lemma yields_cast {s t : Ty} (hs : s.erase = .prim p) (ht : t.erase = .prim q) (hpw : isWhole p)
    (hqw : isWhole q) (hn : InRange p n) :
    S.Yields [Whole.toValue ⟨p, n⟩] (cast s t) q (.ok ⟨q, wrap q n⟩) := by
  unfold Lowering.cast
  rw [hs, ht]
  refine .ite (fun _ => .throw _) fun _ => .ite (fun h => ?_) fun _ =>
    .ite (fun _ => .throw _) fun hnum => ?_
  · subst h
    rw [wrap_eq_of_inRange hn]
    exact Yields.of_pure (.pure ⟨rfl, rfl⟩) ⟨rfl, hn⟩
  · simp only [Bool.or_eq_true, Bool.not_eq_true', not_or, Bool.not_eq_false] at hnum
    refine Yields.of_pure (puts_convert hnum.1 hpw hnum.2 hqw hn) ⟨rfl, inRange_wrap ?_ n⟩
    cases q <;> simp_all [isWhole, Prim.isNumeric, Prim.rank]

/-! ### Operands -/

/-- Whether an evaluation holds. -/
def truth (out : Eval Whole) : Eval Bool := out >>= fun w => .ok w.isTrue

/-- Both ways to lower an operand do what an evaluation does, whose values are of the type `p`. -/
structure Evaluates (S : Scene) (o : Operand) (p : Prim) (out : Eval Whole) : Prop where
  type : ∃ t, o.term.type = .ok t ∧ t.erase = .prim p
  whole : isWhole p
  typed : ∀ w, out = .ok w → w.ty = p
  value : S.Yields [] o.value p out
  jump : ∀ want, S.Jumps [] (o.jump want) (truth out) want

variable {o l r : Operand} {out a b : Eval Whole} {term : Expr} {ty : Ty}

lemma Evaluates.as (h : S.Evaluates o p out) (ty : Ty) (ht : ty.erase = .prim q) (hq : isWhole q) :
    S.Yields [] (o.as ty) q (out >>= fun w => .ok ⟨q, w.val⟩) := by
  obtain ⟨t, hty, het⟩ := h.type
  refine h.value.bind (b := []) h.whole fun n _ hn => .placed _ (.tell (.sound _) fun t' ht' => ?_)
  obtain rfl := Except.ok.inj (hty.symm.trans ht')
  exact yields_coerce het ht h.whole hq hn

lemma jumps_testInt (hn : InRange .boolean n) (want : Bool) :
    S.Jumps [Whole.toValue ⟨.boolean, n⟩] (testInt want) (.ok (Whole.isTrue ⟨.boolean, n⟩))
    want := by
  have htest : (do
      let k ← Recorded.of (Machine.toInt (Whole.toValue ⟨.boolean, n⟩))
      return k != 0) = pure (Whole.isTrue ⟨.boolean, n⟩) := by
    obtain rfl | rfl : n = 0 ∨ n = 1 := by
      obtain ⟨h, h'⟩ := hn
      omega
    all_goals rfl
  have h := @Performance.branches_testInt S.stage S.mode want (Whole.toValue ⟨.boolean, n⟩)
  rwa [htest] at h

lemma Evaluates.ofValue {value : Lower Unit} (ht : ∃ t, term.type = .ok t ∧ t.erase = .prim p)
    (hp : isWhole p) (hw : ∀ w, out = .ok w → w.ty = p) (hv : S.Yields [] value p out) :
    S.Evaluates (ofValue term value) p out where
  type := ht
  whole := hp
  typed := hw
  value := .placed _ hv
  jump want l := by
    obtain ⟨t, hty, het⟩ := ht
    refine .placed _ (hv.bind (b := []) hp fun n _ hn => .tell (.sound _) fun t' ht' => ?_)
    obtain rfl := Except.ok.inj (hty.symm.trans ht')
    exact (yields_coerce (q := .boolean) het rfl hp rfl hn).bind (b := [])
      (f := fun w => .ok w.isTrue) rfl fun m _ hm => jumps_testInt hm want l

lemma Evaluates.ofJump {jump : Bool → Label → Lower Unit} {test : Eval Bool}
    (ht : term.type = .ok (.prim .boolean)) (hj : ∀ want, S.Jumps [] (jump want) test want) :
    S.Evaluates (ofJump term jump) .boolean (test >>= fun b => .ok (.ofBool b)) where
  type := ⟨_, ht, rfl⟩
  whole := rfl
  typed w hw := by
    obtain ⟨b, -, hw⟩ := Except.bind_eq_ok_iff.1 hw
    obtain rfl := Except.ok.inj hw
    rfl
  value := by
    refine .placed _ (Yields.of_puts (Performance.puts_materialize fun l => .placed _ (hj false l))
      ?_ fun w hw => ?_)
    · rw [meant_bind, map_bind, ← bind_pure_comp]
      exact bind_congr fun b => by cases b <;> rfl
    · obtain ⟨b, -, hw⟩ := Except.bind_eq_ok_iff.1 hw
      obtain rfl := Except.ok.inj hw
      cases b <;> exact ⟨rfl, by decide⟩
  jump want l := by
    have htest : truth (test >>= fun b => .ok (Whole.ofBool b)) = test := by
      rcases test with _ | _ | _ <;> rfl
    rw [htest]
    exact .placed _ (hj want l)

/-! ### Constants and variables -/

lemma Evaluates.number {v : Int64} (hp : p = .byte ∨ p = .short ∨ p = .char ∨ p = .int ∨ p = .long)
    (hv : InRange p v.toInt) :
    S.Evaluates (constOperand ⟨.prim p, .int v⟩) p (.ok ⟨p, v.toInt⟩) := by
  have hval : S.Yields [] (pushConst ⟨.prim p, .int v⟩) p (.ok ⟨p, v.toInt⟩) := by
    by_cases hl : p = .long
    · subst hl
      refine Yields.of_pure ?_ ⟨rfl, hv⟩
      rw [show Whole.toValue ⟨.long, v.toInt⟩ =
        .long v from congrArg Value.long (Int64.ofInt_toInt v)]
      exact .pushLong v
    · have heq : pushConst ⟨.prim p, .int v⟩ =
          if v.toInt < -2147483648 ∨ 2147483647 < v.toInt then do
            mismatch (.overflow v.toInt (.prim p))
            pushInt v.toInt
          else pushInt v.toInt := by
        rcases hp with rfl | rfl | rfl | rfl | rfl <;> first | rfl | exact absurd rfl hl
      rw [heq]
      refine .ite (fun _ => .throw _) fun _ => Yields.of_pure ?_ ⟨rfl, hv⟩
      rw [show Whole.toValue ⟨p, v.toInt⟩ = .int (.ofInt v.toInt) from if_neg hl]
      exact .pushInt _
  have hjump (want : Bool) (out : Eval Bool) :
      S.Jumps [] (constJump ⟨.prim p, .int v⟩ want) out want :=
    fun l => .throw _
  refine ⟨⟨_, rfl, rfl⟩, ?_, fun w hw => ?_, .placed "Constant" hval, fun want l =>
    .placed "Constant" (hjump want _ l)⟩
  · rcases hp with rfl | rfl | rfl | rfl | rfl <;> rfl
  · obtain rfl := Except.ok.inj hw
    rfl

lemma Evaluates.bool (b : Bool) :
    S.Evaluates (constOperand (.bool b)) .boolean (.ok (.ofBool b)) := by
  have hval : S.Yields [] (pushConst (.bool b)) .boolean (.ok (.ofBool b)) := by
    refine Yields.of_pure ?_ (by cases b <;> exact ⟨rfl, by decide⟩)
    rw [show (Whole.ofBool b).toValue = .ofBool b by cases b <;> rfl]
    exact Performance.puts_bool b
  refine ⟨⟨_, rfl, rfl⟩, rfl, fun w hw => ?_, .placed "Constant" hval, fun want l =>
    .placed "Constant" ?_⟩
  · obtain rfl := Except.ok.inj hw
    rfl
  have htruth : truth (.ok (Whole.ofBool b)) = .ok b := by cases b <;> rfl
  rw [htruth]
  show S.stage.Does S.mode [l] [] (if b = want then branch .goto l else pure ()) (pure b) _
  by_cases hb : b = want
  · rw [if_pos hb, ← hb]
    exact (Performance.does_goto b []).imp fun c e _ he => by rw [he.1, he.2, if_pos rfl]
  · rw [if_neg hb]
    exact Performance.Branches.never hb l

/-- A variable that is found evaluates to the value it is bound to. -/
lemma Evaluates.variable {find : Lower (Option Local)} {missing : Unresolved} {found : Option Local}
    (hf : Straight S.stage.env find) (ht : ∃ t, term.type = .ok t ∧ t.erase = .prim p)
    (hty : ty.erase = .prim p) (hp : isWhole p) (hw : ∀ w, out = .ok w → w.ty = p)
    (hfind : S.stage.Tells find fun l => l = found)
    (hbound : ∀ v, S.mode.given → found = some v → ∃ b, Bound S.stage.session.locals v b ∧
    out = .ok ⟨p, b.value.val⟩) : S.Evaluates (variableOperand term find missing ty) p out := by
  have hval : S.Yields [] (do
      let v ← Lowering.found find missing
      load v
      coerce v.ty ty) p out := by
    refine .of_given (.bind (.found hf missing) fun v => .bind (.load v) fun _ => .coerce v.ty ty)
      fun _ hgiven =>
      .tell (.found hfind missing) fun v hv => ?_
    obtain ⟨b, hb, rfl⟩ := hbound v hgiven hv
    have hload : S.Yields [] (load v) b.value.ty (.ok b.value) := by
      have h := Performance.Puts.load (P := S.stage) (M := S.mode) v
      rw [hb.slot] at h
      exact .of_pure h ⟨rfl, hb.range⟩
    exact hload.bind (b := []) (f := fun w => .ok (Whole.mk p w.val)) hb.whole fun n _ hn =>
      yields_coerce hb.type hty hb.whole hp hn
  have h : S.Evaluates (Lowering.ofValue term _) p out := .ofValue ht hp hw hval
  exact ⟨h.type, h.whole, h.typed, h.value, h.jump⟩

lemma find_bound {L : Array Value} {vs : List Local} {bs : List Binding}
    (h : List.Forall₂ (Bound L) vs bs) (name : String) :
    match vs.find? (·.name == name) with
    | some v => ∃ b, Bound L v b ∧ find? name bs = some b.value
    | none => find? name bs = none := by
  induction h with
  | nil => rfl
  | @cons v b vs bs hb _ ih =>
    rw [List.find?_cons, find?, List.find?_cons, ← hb.name]
    cases v.name == name with
    | true => exact ⟨b, hb, rfl⟩
    | false => exact ih

lemma retyped_some (v : Whole) (hty : ty.erase = .prim p) :
    retyped (some v) ty = .ok ⟨p, v.val⟩ := by
  unfold retyped
  rw [hty]

lemma ty_of_retyped {v : Option Whole} (hty : ty.erase = .prim p) (h : retyped v ty = .ok w) :
    w.ty = p := by
  unfold retyped at h
  rw [hty] at h
  cases v with
  | none => cases h
  | some v =>
    obtain rfl := Except.ok.inj h
    rfl

lemma Evaluates.localVar (name : String) (hty : ty.erase = .prim p) (hp : isWhole p) :
    S.Evaluates (operand (.localVar name ty)) p (eval S.store (.localVar name ty)) := by
  refine .variable (.lookup? name) ⟨ty, rfl, hty⟩ hty hp (fun w => ty_of_retyped hty)
    (.lookup? name) fun v hag hv => ?_
  have hl := find_bound hag.locals name
  have hpar := find_bound hag.params name
  simp only [eval]
  cases hfl : (S.stage.scopes.flatMap (·.vars)).find? (·.name == name) with
  | some v' =>
    obtain rfl : v' = v := by simpa [hfl] using hv
    rw [hfl] at hl
    obtain ⟨b, hb, hfind⟩ := hl
    exact ⟨b, hb, by rw [hfind, Option.some_or, retyped_some _ hty]⟩
  | none =>
    rw [hfl] at hl
    rw [hfl, Option.none_or] at hv
    rw [hv] at hpar
    obtain ⟨b, hb, hfind⟩ := hpar
    exact ⟨b, hb, by rw [hl, hfind, Option.none_or, retyped_some _ hty]⟩

lemma Evaluates.param (name : String) (hty : ty.erase = .prim p) (hp : isWhole p) :
    S.Evaluates (operand (.param name ty)) p (eval S.store (.param name ty)) := by
  refine .variable (.param? name) ⟨ty, rfl, hty⟩ hty hp (fun w => ty_of_retyped hty) (.param? name)
    fun v hag hv => ?_
  have hpar := find_bound hag.params name
  rw [hv] at hpar
  obtain ⟨b, hb, hfind⟩ := hpar
  exact ⟨b, hb, by simp only [eval]; rw [hfind, retyped_some _ hty]⟩

end Scene

end Classwright.Integral
