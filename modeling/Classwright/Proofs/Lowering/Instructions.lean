import Classwright.Proofs.Lowering.Performance

/-!
Performances of single instructions.

Constants, variables, conversions, calls and branches, each with what its run does to the stack. A
constant that is named by its index in the pool is the one that was put there (`pooling_bind`).
-/

namespace Classwright

namespace Machine.Session

variable {S : Session} {inv : Invoke} {i : Insn} {v w : Value}

lemma effects_constant {index : UInt16} (h : S.routine.pool.Denotes index v) :
    S.Effects (constant index.toNat) [] (pure v) fun w => (w, []) := fun _ _ => constant_apply h

lemma effects_load (slot : Nat) :
    S.Effects (load slot) [] (sure S.locals[slot]?) fun w => (w, []) := by
  intro st s
  rw [List.nil_append]
  cases hv : S.locals[slot]? with
  | none =>
    refine ⟨S.frame st, ?_⟩
    have hge : ¬ (0 ≤ (slot : Int) ∧ (slot : Int).toNat < S.locals.size) := by
      have := Array.getElem?_eq_none_iff.1 hv
      omega
    have hcrash : Machine.slot slot (S.frame st) s = ((.error (.fault .crash), S.frame st), s) := by
      show (if 0 ≤ (slot : Int) ∧ (slot : Int).toNat < S.locals.size then
        (pure (slot : Int).toNat : Op Nat)
        else throw (.fault .crash)) (S.frame st) s = _
      rw [if_neg hge]
      rfl
    rw [load, Op.bind_apply, hcrash]
  | some v => exact load_apply hv

/-- What a computation gives is put on the stack. -/
lemma Effects.of_push {x : Op Unit} {y : Exec Value} {ins : List Value}
    (h : ∀ st s, x (S.frame (ins ++ st)) s = ((liftM y : Op Value) >>= Machine.push)
    (S.frame st) s) : S.Effects x ins y fun w => ((), [w]) := by
  intro st s
  rw [h, lift_bind]
  generalize y s = r
  obtain ⟨e | w, s'⟩ := r
  · exact ⟨_, rfl⟩
  · rfl

lemma effects_convert (c : Conversion) (v : Value) :
    S.Effects (perform inv i (.convert c)) [v] (convert c v) fun w => ((), [w]) :=
  .of_push fun _ _ => rfl

lemma effects_compareLong (v w : Value) :
    S.Effects (perform inv i .compareLong) [w, v] (do
      let m ← toLong v
      let n ← toLong w
      return orderOf (m < n) (n < m)) fun u => ((), [u]) := by
  intro st s
  cases w <;> cases v <;> first | rfl | exact ⟨_, rfl⟩

lemma effects_checkCast {cls : String} (h : S.routine.pool.classAt (poolIndex i.operand) = .ok cls)
    (v : Value) : S.Effects (perform inv i .checkCast) [v] (do
      checkCast v cls
      return v) fun u => ((), [u]) := by
  intro st s
  have hclass : classAt i.operand (S.frame (v :: st)) s = ((.ok cls, S.frame (v :: st)), s) := by
    show (liftM (pooled (S.routine.pool.classAt (poolIndex i.operand))) : Op String)
      (S.frame (v :: st)) s = _
    rw [h]
    rfl
  have hperform : perform inv i .checkCast (S.frame (v :: st)) s =
      (liftM (checkCast v cls) : Op Unit) (S.frame (v :: st)) s := by
    show (classAt i.operand >>= _ : Op Unit) (S.frame (v :: st)) s = _
    rw [Op.bind_apply, hclass]
    rfl
  have hlift : (liftM (checkCast v cls) : Op Unit) (S.frame (v :: st)) s =
      (((checkCast v cls s).1, S.frame (v :: st)), (checkCast v cls s).2) := rfl
  rw [List.singleton_append, bind_apply, hperform, hlift]
  generalize checkCast v cls s = r
  obtain ⟨e | u, s'⟩ := r
  · exact ⟨_, rfl⟩
  · rfl

/-! ### Branches -/

lemma effects_ifZero (c : Cond) (v : Value) : S.Effects (taken (.ifZero c)) [v] (do
    let n ← toInt v
    return c.holds n.toInt 0) fun b => (b, []) := by
  intro st s
  cases v <;> first | rfl | exact ⟨_, rfl⟩

lemma effects_ifInts (c : Cond) (v w : Value) : S.Effects (taken (.ifInts c)) [w, v] (do
    let m ← toInt v
    let n ← toInt w
    return c.holds m.toInt n.toInt) fun b => (b, []) := by
  intro st s
  cases w <;> cases v <;> first | rfl | exact ⟨_, rfl⟩

lemma effects_ifRefs (same : Bool) (v w : Value) :
    S.Effects (taken (.ifRefs same)) [w, v] (pure (v.same w == same)) fun b => (b, []) :=
  fun _ _ => rfl

lemma effects_ifNull (v : Value) : S.Effects (taken .ifNull) [v] (pure v.isNull) fun b => (b, []) :=
  fun _ _ => rfl

lemma effects_ifNonNull (v : Value) :
    S.Effects (taken .ifNonNull) [v] (pure !v.isNull) fun b => (b, []) :=
  fun _ _ => rfl

end Machine.Session

namespace Lowering

open Machine (Exec Fetches Recorded Value Visited callKind? perform)

variable {α : Type} {P : Performance} {M : Mode}

namespace Performance

/-! ### Values -/

variable {K : List Label} {ins : List Value} {y : Exec α} {outs : α → List Value} {x : Lower Unit}
  {a : Action} {v : Value} {m : PoolM UInt16}

namespace Puts

/-- One instruction, where a run comes to it. -/
lemma of_single {e : Emission} (hstraight : Straight P.env x) (hx : Single x e)
    (h : ∀ {f : Machine.Frame} {p : Nat} {s i}, Visited P.session.attr P.session.table (f, p, s) →
      Fetches P.session.attr P.session.table p i → e.Yields P.lowered.code.position? i →
      ∃ a, i.op.action? = some a ∧ a.isPlain ∧
        ∀ inv, P.session.Effects (perform inv i a) ins y fun w => ((), outs w)) :
    P.Puts M ins x (.of y) outs := by
  refine .of_straight hstraight fun hP _ ρ u ρ' hr hok hstays st t s => ?_
  obtain ⟨d, hd, rfl⟩ := hx.emission hok
  obtain ⟨i, hi, hy, hnext⟩ := hP.fetches hr hx.fits (by simp [hx.labels]) hd hstays.code
  by_cases hv : Visited P.session.attr P.session.table (P.session.frame (ins ++ st),
    (ρ.code.size : Int), s)
  · obtain ⟨a, ha, hplain, heff⟩ := h hv hi hy
    obtain ⟨hkind, hend, hbranch⟩ := Action.isPlain_iff.1 hplain
    have hstep : P.session.Meets M.free (_, t) _ (Recorded.of y t s) :=
      .of_step hi ha hkind fun inv => .of_perform ha hend hbranch (heff inv) st
    exact hstep.imp fun w t' s' hleaps => ⟨outs w, ⟨rfl, rfl⟩, hnext ▸ hleaps.comes⟩
  · -- What no run comes to does anything.
    generalize Recorded.of y t s = r
    obtain ⟨⟨e | w, t'⟩, s'⟩ := r
    · exact fun h => absurd h hv
    · exact ⟨outs w, ⟨rfl, rfl⟩, fun h => absurd h hv⟩

lemma of_performs {e : Emission} {z : Machine.Op Unit} (hstraight : Straight P.env x)
    (hx : Single x e) (he : e.Performs z) (h : P.session.Effects z ins y fun w => ((), outs w)) :
    P.Puts M ins x (.of y) outs := by
  refine of_single hstraight hx fun _ _ hi => ?_
  obtain ⟨a, ha, hplain, hperform⟩ := he _ _ hi
  exact ⟨a, ha, hplain, fun inv => (hperform inv).symm ▸ h⟩

lemma emit (ha : a.operandLength = some 0) (hplain : a.isPlain)
    (h : ∀ inv i, i.operand = Emission.impliedSlot a.opcode →
    P.session.Effects (perform inv i a) ins y fun w => ((), outs w)) :
    P.Puts M ins (emit a) (.of y) outs :=
  of_single (.emit ha (Action.isPlain_iff.1 hplain).2.1) (.emit ha)
    fun _ _ hi => ⟨a, Insn.action?_of_op (by rw [hi]), hplain, fun inv => h inv _ (by rw [hi])⟩

lemma load (l : Local) : P.Puts M [] (load l) (.of (Machine.sure P.session.locals[l.slot]?))
    fun w => [w] :=
  of_performs (.load l) (.onLocal _ _) (Emission.performs_load _ _)
    (Machine.Session.effects_load _).push

/-- An instruction that pushes a value. -/
lemma direct (hstraight : Straight P.env x) (h : Direct x v) :
    P.Puts M [] x (Pure.pure v) fun w => [w] := by
  obtain ⟨e, hx, he, -⟩ := h
  rw [← Recorded.of_pure]
  exact of_performs hstraight hx he (Machine.Session.effects_push v)

lemma push (ha : a.operandLength = some 0) (hplain : a.isPlain)
    (h : ∀ inv i, perform inv i a = Machine.push v) :
    P.Puts M [] (Lowering.emit a) (Pure.pure v) fun w => [w] :=
  direct (.emit ha (Action.isPlain_iff.1 hplain).2.1) (direct_emit ha hplain h)

lemma convert (c : Conversion) (w : Value) :
    P.Puts M [w] (Lowering.emit (.convert c)) (.of (Machine.convert c w)) fun u => [u] :=
  emit rfl rfl fun _ _ _ => Machine.Session.effects_convert c w

lemma compareLong (v w : Value) : P.Puts M [w, v] (Lowering.emit .compareLong) (.of (do
    let m ← Machine.toLong v
    let n ← Machine.toLong w
    return Machine.orderOf (m < n) (n < m))) fun u => [u] :=
  emit rfl rfl fun _ _ _ => Machine.Session.effects_compareLong v w

end Puts

/-! ### Constants -/

/-- An index is put into the pool, of which something is so when the method is run. -/
lemma Does.of_pool {Q : UInt16 → Prop} {f : UInt16 → Lower Unit} {n : Recorded α}
    {E : α → Exit → Prop} (hm : Pool.Adds m)
    (hQ : P.Staged → M.given → ∀ p, p.Coherent → (m p).2.Extends P.lowered.pool → Q (m p).1)
    (hstraight : ∀ index, Straight P.env (f index))
    (hf : ∀ index, Q index → P.Does M K ins (f index) n E) :
    P.Does M K ins (pooling m >>= f) n E := by
  intro ρ u ρ' hρ hK h
  obtain ⟨index, ρ₁, hpool, hf₁⟩ := bind_eq_ok_iff.1 h
  have hl : Lowers M.free ρ ρ₁ := (Adds.pooling hm hpool).1.lowers
  have hl' : Lowers M.free ρ₁ ρ' := (Adds.of_straight (hstraight index) hf₁).1.lowers
  refine ⟨hl.trans hl', fun hP hM hstays => ?_⟩
  have hρ₁ := hρ.continues hl.1
  have hstays₁ := hl'.1.toStays.trans hstays
  have hcoherent := (hP.ready hρ (hl.1.toStays.trans hstays₁)).coherent
  have hlater := hstays₁.supply.pool (hl.1.supply.coherent hcoherent)
  obtain ⟨rfl, rfl⟩ := pooling_eq_ok_iff.1 hpool
  exact (hf _ (hQ hP hM _ hcoherent hlater) hρ₁ hK hf₁).2 hP hM hstays

/-- A constant is at an index, or no run comes to where it is loaded. -/
def Holds (P : Performance) (index : UInt16) (v : Value) : Prop :=
  P.session.routine.pool.Denotes index v ∨ ∀ {f : Machine.Frame} {p : Nat} {s i},
    Visited P.session.attr P.session.table (f, p, s) → Fetches P.session.attr P.session.table p i →
      ¬ i.Loads index

/-- A constant that is put into the pool is there, if a run comes to where it is loaded. -/
lemma Staged.holds (hP : P.Staged) {p : Pool} (hp : p.Coherent) {entry : Entry}
    (hlater : (Pool.add entry p).2.Extends P.lowered.pool)
    (hv : ∀ {q : Pool} {i}, q.entry i = .ok entry → q.Denotes i v) :
    P.Holds (Pool.add entry p).1 v := by
  rcases hP.constants with hfits | hzero
  · exact .inl (hv ((Pool.puts_add entry).later (fun _ _ _ he => he.entry) hp
      (hlater.trans hP.pool) hfits))
  · refine (Pool.add_spec hp entry).2.2.imp (fun he => hv (hP.pool.entry (hlater.entry he)))
      fun h => ?_
    rw [h.1]
    exact hzero

namespace Puts

/-- A constant of the pool. -/
lemma loads {e : Emission} {index : UInt16} (hstraight : Straight P.env x) (hx : Single x e)
    (he : e.Loads index) (h : P.Holds index v) : P.Puts M [] x (Pure.pure v) fun w => [w] := by
  rw [← Recorded.of_pure]
  rcases h with h | h
  · exact of_performs hstraight hx he.performs (Machine.Session.effects_constant h).push
  · exact of_single hstraight hx fun hv hi hy => absurd (he _ _ hy) (h hv hi)

lemma pooled {f : UInt16 → Lower Unit} (hm : Pool.Adds m)
    (hQ : P.Staged → M.given → ∀ p, p.Coherent → (m p).2.Extends P.lowered.pool → P.Holds (m p).1 v)
    (hstraight : ∀ index, Straight P.env (f index)) (hf : Finds f) :
    P.Puts M [] (pooling m >>= f) (Pure.pure v) fun w => [w] := by
  refine Does.of_pool (Q := fun index => P.Holds index v) hm hQ hstraight fun index h => ?_
  obtain ⟨e, hx, he, -⟩ := hf index
  exact loads (hstraight index) hx he h

lemma pushInt (n : Int) : P.Puts M [] (pushInt n) (Pure.pure (.int (.ofInt n))) fun w => [w] := by
  rcases pushInt_cases n with h | heq
  · exact direct (.pushInt n) h
  · rw [heq]
    exact pooled (Pool.adds_add _) (fun hP _ _ hp hlater => hP.holds hp hlater id)
      (fun _ => .loadConst _) finds_loadConst

lemma pushLong (n : Int64) : P.Puts M [] (pushLong n) (Pure.pure (.long n)) fun w => [w] := by
  rcases pushLong_cases n with h | heq
  · exact direct (.pushLong n) h
  · rw [heq]
    exact pooled (Pool.adds_add _) (fun hP _ _ hp hlater => hP.holds hp hlater id)
      (fun _ => .emitShort rfl _) finds_ldcTwo

end Puts

/-! ### Branches -/

/-- A branch, with what it leaves on the stack. -/
lemma does_branch {y : Exec Bool} {vs : List Value} {l : Label} (ha : a.isBranch)
    (hfall : a.isConditional ∨ y = pure true)
    (h : P.session.Effects (Machine.taken a) ins y fun c => (c, vs)) :
    P.Does M [l] ins (branch a l) (.of y) fun c e => e = ⟨if c then some l else none, vs⟩ := by
  intro ρ u ρ' hρ hK hok
  have hl := hK l (List.mem_singleton_self l)
  have hemits := branch_emits ha hl hok
  refine ⟨hemits.lowers, fun hP _ hstays st t s => ?_⟩
  have href := referred_of_branch hl hok
  have hreach (hcond : a.isConditional) (hr : ρ.code.reachable) : ρ'.code.reachable := by
    have hend : a.endsBlock = false := by cases a <;> first | rfl | (cases ha; done) | cases hcond
    rw [branch_eq_ok hok]
    simp [hr, hend]
  have hkind : callKind? a = none := by cases a <;> first | rfl | cases ha
  obtain ⟨d, hd, rfl⟩ := onCode?_eq_ok_iff.1 hok
  obtain ⟨i, hi, ⟨q, hq, hy⟩, hnext⟩ := hP.fetches (e := .jump a.opcode l)
    (hP.ready hρ (hemits.continues.toStays.trans hstays)) trivial
      (by simpa [Emission.labels] using hl) hd hstays.code
  have hop := Insn.action?_of_op (i := i) (by rw [hy])
  rw [← bind_pure (Recorded.of y)]
  refine (Machine.Session.Meets.of_step hi hop hkind fun _ =>
    .of_taken hop ha (by rw [hy]) h st).bind
    fun c t' s' hc hleaps => ⟨_, rfl, ?_⟩
  cases c with
  | true => exact ⟨fun _ => href, q, hq, hleaps⟩
  | false =>
    have hcond : a.isConditional := hfall.resolve_right (by rintro rfl; cases hc)
    exact ⟨fun _ => hreach hcond, hnext ▸ hleaps.comes⟩

/-- A conditional branch. -/
lemma Branches.branch {y : Exec Bool} (ha : a.isConditional)
    (h : P.session.Effects (Machine.taken a) ins y fun c => (c, [])) :
    P.Branches M ins (branch a) (.of y) true :=
  fun _ => does_branch (Bool.and_eq_true_iff.1 ha).1 (.inl ha) h

lemma does_goto {l : Label} (r : α) (vs : List Value) :
    P.Does M [l] vs (branch .goto l) (pure r) fun r' e => r' = r ∧ e = ⟨some l, vs⟩ := by
  have h : P.Does M [l] vs (Lowering.branch .goto l) (pure true) _ :=
    does_branch rfl (.inr rfl) fun _ _ => rfl
  rw [← pure_bind true fun _ => pure r]
  exact h.map fun c e hc he => ⟨r, rfl, rfl, by rw [he, Recorded.returns_pure hc, if_pos rfl]⟩

lemma branches_goto : P.Branches M [] (branch .goto) (pure true) true :=
  fun _ => (does_goto true []).imp fun c e _ he => by rw [he.1, he.2, if_pos rfl]

/-- One of two ways, by a branch to the second. -/
lemma Gives.diamond {jump : Label → Lower Unit} {test : Recorded Bool} {want : Bool}
    {m n : Recorded α} {z : Lower Unit}
    {V : α → List Value → Prop} (hV : ∃ a vs, V a vs) (hj : P.Branches M [] jump test want)
    (hx : P.Gives M [] x m V) (hz : P.Gives M [] z n V) :
    P.Gives M [] (diamond jump x z) (test >>= fun c => if c = want then n else m) V := by
  have hcode : Lowering.diamond jump x z = (do
      let other ← newLabel
      let stop ← newLabel
      (((do jump other; x; branch .goto stop) >>= fun _ => join other) >>= fun _ => z) >>=
      fun _ => join stop) := by
    simp only [Lowering.diamond, bind_assoc]
  have hout : (test >>= fun c => if c = want then n else m) =
      (test >>= fun c => if c = want then pure none else some <$> m) >>=
        fun r => r.elim n pure := by
    rw [bind_assoc]
    refine bind_congr fun c => ?_
    split <;> simp
  rw [hcode, hout]
  refine .newLabel fun other => .newLabel fun stop => ?_
  have hfirst : P.Does M [stop, other] [] ((do jump other; x; branch .goto stop) >>=
      fun _ => join other) (test >>= fun c => if c = want then pure none else some <$> m)
      fun r e => r.elim (e = ⟨none, []⟩) fun a => e.label = some stop ∧ V a e.stack := by
    refine .join (l := other) (E := fun r e => r.elim (e = ⟨some other, []⟩) fun a =>
      e.label = some stop ∧ V a e.stack)
      (((hj other).mono (by simp)).bind (b := []) ⟨!want, _, rfl, by simp⟩ fun c e _ he => ?_)
        (by simp) fun r e he => ?_
    · subst he
      by_cases hc : c = want
      · rw [if_pos hc, if_pos hc]
        exact ⟨none, rfl, rfl⟩
      · rw [if_neg hc, if_neg hc, ← bind_pure_comp]
        refine hx.bind (b := []) hV fun a vs _ hV => ((does_goto (some a) _).mono (by simp)).imp ?_
        rintro _ _ - ⟨rfl, rfl⟩
        exact ⟨rfl, by rwa [List.append_nil]⟩
    · cases r with
      | none =>
        obtain rfl : e = ⟨some other, []⟩ := he
        exact .inr ⟨rfl, rfl⟩
      | some a => exact .inl he
  refine .join (l := stop) (E := fun a e => V a e.stack ∧ (e.label = none ∨ e.label = some stop))
    (hfirst.bind (b := []) ⟨none, _, rfl, rfl⟩ fun r e _ he => ?_) (by simp) fun a e he => ?_
  · cases r with
    | none =>
      obtain rfl : e = ⟨none, []⟩ := he
      exact (hz.mono (List.nil_subset _)).imp fun a e _ he => ⟨he.2, .inl he.1⟩
    | some a =>
      obtain ⟨label, vs⟩ := e
      obtain ⟨rfl, hV⟩ : label = some stop ∧ V a vs := he
      exact ⟨a, rfl, by rwa [List.append_nil], .inr rfl⟩
  · rcases he.2 with hnone | hstop
    · exact .inl ⟨hnone, he.1⟩
    · exact .inr ⟨hstop, rfl, he.1⟩

lemma puts_bool (b : Bool) :
    P.Puts M [] (emit (.constInt (if b then ⟨2, by decide⟩ else ⟨1, by decide⟩))) (pure (.ofBool b))
      fun v => [v] := by
  cases b <;> exact Puts.push rfl rfl fun _ _ => rfl

/-- A condition is made a value by pushing one constant or the other. -/
lemma puts_materialize {m : Recorded Bool} (hjump : P.Branches M [] (jump false) m false) :
    P.Puts M [] (materialize jump) (Value.ofBool <$> m) fun v => [v] := by
  have hout : Value.ofBool <$> m = m >>= fun c =>
      if c = false then pure (.ofBool false) else pure (.ofBool true) := by
    rw [← bind_pure_comp]
    exact bind_congr fun c => by cases c <;> rfl
  rw [hout]
  exact Gives.diamond ⟨.null, _, rfl⟩ hjump (puts_bool true) (puts_bool false)

/-! ### Calls and casts -/

section

variable {n : Recorded α} {E : α → Exit → Prop}

/-- A constant of which something is so when the method is run, if the pool has all of them. -/
lemma Does.interned {Q : Pool → UInt16 → Prop} {f : UInt16 → Lower Unit} (hput : Pool.Puts m Q)
    (hlast : Pool.Lasts Q) (hstraight : ∀ index, Straight P.env (f index))
    (hf : ∀ index, Q P.session.routine.pool index → P.Does P.answered K ins (f index) n E) :
    P.Does P.answered K ins (pooling m >>= f) n E :=
  .of_pool hput.adds (fun hP hfits _ hp hlater => hput.later hlast hp (hlater.trans hP.pool) hfits)
    hstraight hf

end

namespace Puts

lemma str (s : String) : P.Puts P.answered [] (pooling (Pool.str s) >>= loadConst)
    (Pure.pure (.str s)) fun w => [w] := by
  have hput : Pool.Puts (Pool.str s) fun q i => q.Denotes i (.str s) := Pool.puts_str s
  exact pooled hput.adds (fun hP hfits _ hp hlater =>
    .inl (hput.later (fun _ _ _ he => he.denotes) hp (hlater.trans hP.pool) hfits))
    (fun _ => .loadConst _) finds_loadConst

lemma checkCast {ty : Ty} {cls : String} (hty : ty.internal = .ok cls) (v : Value) :
    P.Puts P.answered [v] (checkCast ty) (.of (do
      Machine.checkCast v cls
      return v)) fun u => [u] := by
  have hindex : classIndex ty = pooling (Pool.cls cls) := by
    unfold classIndex
    rw [hty]
    rfl
  unfold Lowering.checkCast
  rw [hindex]
  refine .interned (Pool.puts_cls cls) Pool.lasts_classAt (fun _ => .emitShort rfl _) fun index h =>
    of_single (.emitShort rfl _) (.emitShort rfl (by simp) index) fun _ _ hi => ?_
  refine ⟨_, Insn.action?_of_op (by rw [hi]), rfl, fun inv =>
    Machine.Session.effects_checkCast ?_ v⟩
  rw [hi]
  exact (Machine.poolIndex_toNat index).symm ▸ h

/-- A call of a method with a value. The arguments are on the stack, the last one on top. -/
lemma invoke {kind : Machine.CallKind} {owner name desc : String} {isInterface : Bool}
    {params : List String} {ret : String} {vs : List Value} (ha : a.takesShort)
    (hkind : callKind? a = some kind) (hparse : Descriptor.parse desc = .ok (params, ret))
    (hret : Machine.returnsValue desc) (hlen : vs.length = kind.arity params) :
    P.Puts P.answered vs (invoke a owner name desc isInterface)
    (.call P.session.answers ⟨kind, ⟨owner, name, desc, isInterface⟩, vs.reverse⟩)
    fun w => [w] := by
  have hpush : a ≠ .pushShort := by
    rintro rfl
    cases hkind
  refine .interned (Pool.puts_method owner name desc isInterface)
    Pool.lasts_memberAt (fun _ => .emitShort ha _)
    fun index h => .of_straight (.emitShort ha index) fun hP _ ρ u ρ' hr hok hstays st t s => ?_
  have hx := Single.emitShort ha hpush index
  obtain ⟨d, hd, rfl⟩ := hx.emission hok
  obtain ⟨i, hi, hy, hnext⟩ := hP.fetches hr hx.fits (by simp [hx.labels]) hd hstays.code
  have href : P.session.routine.pool.memberAt (Machine.poolIndex i.operand) =
      .ok ⟨owner, name, desc, isInterface⟩ := by
    rw [show i.operand = index.toNat by rw [hy], Machine.poolIndex_toNat]
    exact h
  exact (Machine.Session.Meets.of_invocation hi (Insn.action?_of_op (by rw [hy])) hkind href hparse
    hlen hret hnext).imp fun w t' s' hleaps => ⟨[w], ⟨rfl, rfl⟩, hleaps.comes⟩

end Puts

end Performance

end Lowering

end Classwright
