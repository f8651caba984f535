import Classwright.Proofs.Lowering.Growth

/-!
Expressions keep to themselves.

An operand keeps to itself if its value and its branches do, the latter with their target as an exit
(`Operand.Tidy`). What is lowered in the course of an operand is lowered whether its value is made,
a branch is taken on it or something is assigned to it (`Operand.Embeds`). Every way to make an
operand from others keeps that.
-/

namespace Classwright.Lowering

variable {env : Env} {X : Set Label} {l : Label} {P : State → State → Prop} {p q s : Prop}
  {jump : Bool → Label → Lower Unit}

namespace Straight

/-- The exception is that of the innermost clause. -/
lemma caughtValue (ty : Ty) : Straight env (caughtValue ty) := by
  refine .bind .get fun σ => ?_
  split
  · exact .bind (.load _) fun _ => .coerce _ _
  · exact .fail _

/-- A static method has none. -/
lemma receiver : Straight env receiver :=
  .bind .read fun _ => .ite (fun _ => .fail_bind _ _) fun _ => .emit rfl rfl

/-- A field of the unit has the type that it was declared with. -/
lemma fieldType (owner : ClassTy) (name : String) (ty : Ty) (isStatic : Bool) :
    Straight env (fieldType owner name ty isStatic) := by
  refine .bind .read fun _ => ?_
  split
  · exact .pure _
  · exact .fail _
  · exact .ite (fun _ => .pure _) fun _ => .mismatch _

/-- Arrays of primitives have an instruction of their own. -/
lemma newArray (of : Ty) (dims : Nat) : Straight env (newArray of dims) := by
  unfold Lowering.newArray
  split
  · exact .emitByte rfl _
  · exact .bind (.classIndex _) fun _ => .emitShort rfl _

end Straight

namespace Tidy

lemma type (o : Operand) : Tidy env X o.type := of_straight (.sound _)

/-- A truth value is tested by a branch. -/
lemma testInt (want : Bool) (hl : l ∈ X) : Tidy env X (testInt want l) := branch hl

lemma callMethod (t : Ty) (m : MethodRef) : Tidy env X (callMethod t m) := by
  refine bind .read fun _ => ite (.invoke rfl) (ite ?_ ?_)
  · exact bind (of_straight (.pooling (Pool.adds_method _ _ _ _))) fun index =>
      emission (e := .interface index _) trivial (by simp [Emission.labels]) fun h =>
        ⟨_, rfl, onCode_eq_ok_iff.1 h⟩
  · exact .invoke rfl

end Tidy

/-- Two ways that meet again. -/
lemma Embeds.diamond {jump : Label → Lower Unit} {yes no : Lower Unit}
    (hj : ∀ l, Embeds env P p {l} (jump l)) (hy : Embeds env P q ∅ yes) (hn : Embeds env P s ∅ no) :
    Embeds env P (p ∨ q ∨ s) X (diamond jump yes no) := by
  intro σ u σ' hk h
  -- two labels are made, and wait until the ways meet
  obtain ⟨other, σ₁, -, w, h⟩ := (Laid.refl hk).newLabel_bind h
  obtain ⟨stop, σ₂, hstop, w, h⟩ := w.newLabel_bind h
  obtain ⟨_, σ₃, w, h⟩ := w.embed_bind (hj other) (by simp) h
  obtain ⟨_, σ₄, w, h⟩ := w.embed_bind hy (by simp) h
  obtain ⟨_, σ₅, w, h⟩ := w.run_bind (.branch (Set.mem_singleton stop)) (by simp) h
  obtain ⟨σ₆, w, h⟩ := w.join_bind (by simp) h
  obtain ⟨_, σ₇, w, h⟩ := w.embed_bind hn (by simp) h
  exact (w.join (by grind) h).close (by grind) (by simp [or_assoc])

/-- A value that is made from branches. -/
lemma Embeds.materialize (hj : ∀ {X want l}, l ∈ X → Embeds env P p X (jump want l)) :
    Embeds env P p X (materialize jump) :=
  .imp (.diamond (fun l => hj (Set.mem_singleton l)) (Tidy.emit rfl).embeds (Tidy.emit rfl).embeds)
    .inl

lemma Tidy.materialize (hj : ∀ {X want l}, l ∈ X → Tidy env X (jump want l)) :
    Tidy env X (materialize jump) :=
  (Embeds.materialize (P := fun _ _ => True) fun hl => (hj hl).embeds).tidy

/-! ### Operands -/

/-- The ways to lower an operand keep to themselves. -/
structure Operand.Tidy (env : Env) (o : Operand) : Prop where
  value : ∀ {X}, Lowering.Tidy env X o.value
  jump : ∀ {X want l}, l ∈ X → Lowering.Tidy env X (o.jump want l)

/-- The value of an operand at another type. -/
lemma Operand.Tidy.as {o : Operand} (ho : o.Tidy env) (ty : Ty) : Lowering.Tidy env X (o.as ty) :=
  .bind ho.value fun _ => .placed _ (.bind (.type o) fun _ => .of_straight (.coerce _ _))

/-- An expression without parts that some terms treat in another way. -/
def isPlain : Expr → Bool
  | .absent | .const _ | .super _ => true
  | _ => false

/-- If `p` holds, something is lowered in the course of lowering an operand, in whichever way, and
so it is for a value that is assigned to it. -/
structure Operand.Embeds (env : Env) (P : State → State → Prop) (p : Prop) (o : Operand) :
    Prop where
  compound : p → isPlain o.term = false
  value : ∀ {X}, Lowering.Embeds env P p X o.value
  jump : ∀ {X want l}, l ∈ X → Lowering.Embeds env P p X (o.jump want l)
  assign : ∀ {X f q}, (∀ ty, Lowering.Embeds env P q X (f ty)) →
    Lowering.Embeds env P (p ∨ q) X (o.assign f)

namespace Operand.Embeds

variable {o l r test yes no array index : Operand} {v : Lower Unit} {term : Expr}
  {os : List Operand}

section

variable (ho : o.Embeds env P p)

include ho

lemma tidy : o.Tidy env := ⟨ho.value.tidy, fun hl => (ho.jump hl).tidy⟩

/-- The condition may be a stronger one. -/
lemma imp (hq : q → p) : o.Embeds env P q where
  compound h := ho.compound (hq h)
  value := ho.value.imp hq
  jump hl := (ho.jump hl).imp hq
  assign hf := (ho.assign hf).imp (Or.imp_left hq)

/-- Nothing is lowered in the course of an operand that may be left out. -/
lemma not_of_isPlain (h : isPlain o.term) : ¬ p := fun hp => by simp [ho.compound hp] at h

lemma not_of_isAbsent (h : o.term.isAbsent) : ¬ p := ho.not_of_isPlain (by
  cases hterm : o.term <;> simp_all [isPlain, Expr.isAbsent])

lemma not_of_isNullConst (h : o.term.isNullConst) : ¬ p := ho.not_of_isPlain (by
  cases hterm : o.term <;> simp_all [isPlain, Expr.isNullConst])

lemma not_of_isZeroConst (h : isZeroConst o.term) : ¬ p := ho.not_of_isPlain (by
  cases hterm : o.term <;> simp_all [isPlain, isZeroConst])

lemma as (ty : Ty) : Lowering.Embeds env P p X (o.as ty) :=
  .before ho.value fun _ => .placed _ (.bind (.type o) fun _ => .of_straight (.coerce _ _))

/-- The value of an operand that has to be an object. -/
lemma ref : Lowering.Embeds env P p X o.ref :=
  .after (.type o) fun _ => .ite (fun _ => ho.value) fun _ => .mismatch _

end

/-- A branch on an operand tests its value. -/
lemma ofValue (ht : p → isPlain term = false) (hv : Lowering.Embeds env P p ∅ v) :
    (ofValue term v).Embeds env P p where
  compound := ht
  value := hv.weaken.placed _
  jump hl := .placed _ (.before hv.weaken fun _ => .bind (.of_straight (.sound _)) fun _ =>
    .bind (.of_straight (.coerce _ _)) fun _ => .testInt _ hl)
  assign _ := .fail _

/-- An operand that can be assigned to. -/
lemma ofTarget (ht : p → isPlain term = false) (hv : Lowering.Embeds env P p ∅ v)
    {assign : (Ty → Lower Unit) → Lower Unit}
    (ha : ∀ {X f q}, (∀ ty, Lowering.Embeds env P q X (f ty)) →
    Lowering.Embeds env P (p ∨ q) X (assign f)) : (ofTarget term v assign).Embeds env P p :=
  { ofValue ht hv with assign := ha }

/-- A condition has a value that is made from its branches. -/
lemma ofJump (ht : p → isPlain term = false) {jump : Bool → Label → Lower Unit}
    (hj : ∀ {X want l}, l ∈ X → Lowering.Embeds env P p X (jump want l)) :
    (ofJump term jump).Embeds env P p where
  compound := ht
  value := .placed _ (.materialize fun hl => .placed _ (hj hl))
  jump hl := .placed _ (hj hl)
  assign _ := .fail _

/-! ### Constants, variables and members -/

/-- A value that is made without labels. -/
lemma ofStraight (term : Expr) (hv : Straight env v) :
    (Lowering.ofValue term v).Embeds env P False :=
  ofValue False.elim (Tidy.of_straight hv).embeds

/-- A branch on a constant is taken or left out. -/
lemma constOperand (c : Constant) : (constOperand c).Embeds env P False := by
  refine { ofStraight (.const c) (.pushConst c) with jump := fun hl => .placed _ (Tidy.embeds ?_) }
  unfold constJump
  split
  · exact .ite (.branch hl) (.pure _)
  · exact .mismatch _

/-- A variable is searched for when it is used. -/
lemma variableOperand (term : Expr) {find : Lower (Option Local)} (hf : Straight env find)
    (missing : Unresolved) (ty : Ty) : (variableOperand term find missing ty).Embeds env P False :=
  ofTarget False.elim
    (Tidy.of_straight (.bind (.found hf missing) fun l => .bind (.load l) fun _ =>
      .coerce _ _)).embeds
    fun hv => .bind (Tidy.of_straight (.found hf missing)).embeds fun l =>
      .before (hv l.ty) fun _ => .store l

/-- An object that is left out is the receiver. -/
lemma orThis (ho : o.Embeds env P p) (owner : ClassTy) : (orThis o owner).Embeds env P p := by
  unfold Lowering.orThis
  split
  · next h => exact (ofStraight _ .receiver).imp (ho.not_of_isAbsent h)
  · exact ho

/-- The object of a field is pushed before the value that it is given. -/
lemma fieldOperand (ho : o.Embeds env P p) (owner : ClassTy) (name : String) (ty : Ty) :
    (fieldOperand o owner name ty).Embeds env P p :=
  ofTarget (fun _ => rfl)
    (.after (.of_straight (.fieldType owner name ty false)) fun t =>
      .before (ho.orThis owner).ref fun _ =>
      .of_straight (.bind (.fieldInsn rfl owner name t) fun _ => .coerce _ _))
    fun hv => .after (.of_straight (.fieldType owner name ty false)) fun t =>
      .bind (ho.orThis owner).ref fun _ =>
      .before (hv t) fun _ => .of_straight (.fieldInsn rfl owner name t)

lemma staticOperand (owner : ClassTy) (name : String) (ty : Ty) :
    (staticOperand owner name ty).Embeds env P False :=
  ofTarget False.elim
    (Tidy.of_straight (.bind (.fieldType owner name ty true) fun t =>
      .bind (.fieldInsn rfl owner name t) fun _ => .coerce _ _)).embeds
    fun hv => .bind (Tidy.of_straight (.fieldType owner name ty true)).embeds fun t =>
      .before (hv t) fun _ =>
      .of_straight (.fieldInsn rfl owner name t)

/-! ### Calls -/

section

variable {args : List (Ty → Lower Unit)}
  (ha : Along (fun p f => ∀ ty, Lowering.Embeds env P p X (f ty)) q args)

include ha

/-- Each argument is pushed at the type of its parameter. -/
lemma pushArgs (params : List Ty) : Lowering.Embeds env P q X (pushArgs args params) := by
  refine .ite (fun _ => .throw _) fun hlen => .forM ?_
  have hmap : (args.zip params).map Prod.fst = args :=
    List.map_fst_zip (le_of_eq (not_ne_iff.1 hlen))
  exact .imp (.of_map (hmap.symm ▸ ha)) fun hf => hf _

lemma callStatic (m : MethodRef) : Lowering.Embeds env P q X (callStatic m args) :=
  .before (pushArgs ha _) fun _ => .bind .read fun _ => .invoke rfl

lemma callSuper (m : MethodRef) : Lowering.Embeds env P q X (callSuper m args) :=
  .after .read fun _ =>
    .orFail (.after (.emit rfl) fun _ => .before (pushArgs ha _) fun _ => .invoke rfl)

/-- The object is pushed first, and then the arguments. -/
lemma callOn (ho : o.Embeds env P p) (m : MethodRef) :
    Lowering.Embeds env P (p ∨ q) X (callOn o m args) :=
  .bind ho.value fun _ => .after (.type o) fun _ =>
    .orFail (.before (pushArgs ha _) fun _ => .callMethod _ m)

/-- A method of the superclass is called on the receiver. -/
lemma call (ho : o.Embeds env P p) (m : MethodRef) :
    Lowering.Embeds env P (p ∨ q) X (call o m args) := by
  unfold Lowering.call
  split
  · next c hterm =>
      exact (callSuper ha m).imp (Or.resolve_left · (ho.not_of_isPlain (by rw [hterm]; rfl)))
  · exact .after .read fun _ => callOn ha (ho.orThis _) m

/-- A new object is pushed twice, once for its constructor. -/
lemma instantiate (c : ClassTy) (params : List Ty) :
    Lowering.Embeds env P q X (instantiate c params args) :=
  .after .read fun _ => .orFail (.after (.of_straight (.classIndex _)) fun _ =>
    .after (.of_straight (.emitShort rfl _)) fun _ => .after (.emit rfl) fun _ =>
      .before (pushArgs ha params) fun _ => .invoke rfl)

end

/-- A property is read and written by its accessors. -/
lemma propertyOperand (ho : o.Embeds env P p) (owner : ClassTy) (name : String) (ty : Ty) :
    (propertyOperand o owner name ty).Embeds env P p :=
  ofTarget (fun _ => rfl)
    (.after .read fun _ => (call (.nil id) (ho.orThis owner) _).imp .inl)
    fun hv => .placed _ (call (.cons hv (.nil id) .inl) (ho.orThis owner) _)

/-! ### Arrays -/

/-- The elements of an array are stored one after another. -/
lemma pushElements (hos : Along (Operand.Embeds env P) p os) (ty : Ty) (i : Nat) :
    Lowering.Embeds env P p X (pushElements ty i os) := by
  induction hos generalizing i with
  | nil h => exact (Tidy.pure ()).embeds.imp h
  | cons ho _ h ih =>
    exact .after (.emit rfl) fun _ => .after (.of_straight (.pushInt _)) fun _ =>
      .imp (.bind (ho.as ty) fun _ => .after (.emit rfl) fun _ => ih (i + 1)) h

lemma arrayLit (hos : Along (Operand.Embeds env P) p os) (of : Ty) (dims : Nat) :
    Lowering.Embeds env P p X (arrayLit of dims os) :=
  .after (.of_straight (.pushInt _)) fun _ => .after (.of_straight (.newArray of dims)) fun _ =>
    pushElements hos _ _

/-- The array and the index are pushed once, to read or to write. -/
lemma pushIndexed (ha : array.Embeds env P p) (hi : index.Embeds env P q) :
    Lowering.Embeds env P (p ∨ q) X (pushIndexed array index) := by
  refine .after (.type array) fun _ => ?_
  split
  · exact .bind ha.value fun _ => .before (hi.as _) fun _ => .pure _
  · exact .mismatch _

lemma elementOperand (ha : array.Embeds env P p) (hi : index.Embeds env P q) :
    (elementOperand array index).Embeds env P (p ∨ q) :=
  ofTarget (fun _ => rfl) (.before (pushIndexed ha hi) fun _ => .emit rfl)
    fun hv => .bind (pushIndexed ha hi) fun e => .before (hv e.toTy) fun _ => .emit rfl

lemma lengthValue (ha : array.Embeds env P p) : Lowering.Embeds env P p X (lengthValue array) := by
  refine .after (.type array) fun _ => ?_
  split
  · exact .before ha.value fun _ => .emit rfl
  · exact .mismatch _

/-! ### Arithmetic -/

lemma emitMath (op : MathOp) (n : Num) : Lowering.Tidy env X (emit (mathAction op n)) := by
  cases op <;> exact .emit rfl

lemma shiftDistance (hr : r.Embeds env P p) : Lowering.Embeds env P p X (shiftDistance r) := by
  refine .after (.type r) fun _ => ?_
  split
  · exact hr.as _
  · exact .before (hr.as _) fun _ => .emit rfl
  · exact .mismatch _

lemma negValue (ho : o.Embeds env P p) : Lowering.Embeds env P p X (negValue o) :=
  .after (.type o) fun _ => .orFail (.before (ho.as _) fun _ => .emit rfl)

section

variable (hl : l.Embeds env P p) (hr : r.Embeds env P q)

include hl hr

/-- Both operands are promoted, but for the distance of a shift. -/
lemma mathValue (op : MathOp) : Lowering.Embeds env P (p ∨ q) X (mathValue op l r) := by
  refine .after (.of_straight (.sound _)) fun _ => .ite (fun _ => ?_) fun _ =>
    .ite (fun _ => ?_) fun _ => ?_
  · exact .bind (hl.as _) fun _ => .before (hr.as _) fun _ => emitMath op _
  · exact .after (.type l) fun _ => .after (.type r) fun _ => .throw _
  · refine .orFail (.bind (hl.as _) fun _ => .ite (fun _ => ?_) fun _ => ?_)
    · exact .before hr.shiftDistance fun _ => emitMath op _
    · exact .before (hr.as _) fun _ => emitMath op _

lemma equalObjects : Lowering.Embeds env P (p ∨ q) X (equalObjects l r) := by
  refine .bind hl.ref fun _ =>
    .before hr.ref fun _ => .bind (.type l) fun _ => .bind (.type r) fun _ => ?_
  split
  · exact .ite (.invoke rfl) (.invoke rfl)
  · exact .invoke rfl

end

/-! ### Branches -/

section

variable {target : Label} (ht : target ∈ X)

include ht

lemma nullJump (ho : o.Embeds env P p) (want : Bool) :
    Lowering.Embeds env P p X (nullJump o want target) :=
  .before ho.ref fun _ => .branch ht

variable (hl : l.Embeds env P p) (hr : r.Embeds env P q)

include hl hr

/-- A comparison with null pushes the other operand only. -/
lemma identityJump (same : Bool) :
    Lowering.Embeds env P (p ∨ q) X (identityJump same l r target) := by
  refine .ite (fun h => ?_) fun _ => .ite (fun h => ?_) fun _ => ?_
  -- the null that is left out has nothing in its course
  · exact (nullJump ht hl same).imp (Or.resolve_right · (hr.not_of_isNullConst h))
  · exact (nullJump ht hr same).imp (Or.resolve_left · (hl.not_of_isNullConst h))
  · exact .bind hl.value fun _ => .before hr.value fun _ => .branch ht

/-- So does one of integers with zero. -/
lemma compareJump (op : CompareOp) (want : Bool) :
    Lowering.Embeds env P (p ∨ q) X (compareJump op l r want target) := by
  refine .after (.type l) fun _ => .after (.type r) fun _ =>
    .ite (fun _ => identityJump ht hl hr _) fun _ => ?_
  refine .after (.of_straight (.comparisonType _ _ _)) fun n => .bind (hl.as _) fun _ =>
    .ite (fun h => ?_) fun _ => ?_
  · exact (Tidy.branch ht).embeds.imp (hr.not_of_isZeroConst (Bool.and_eq_true_iff.1 h).2)
  · refine .before (hr.as _) fun _ => ?_
    split
    on_goal 4 => exact .branch ht
    all_goals exact .bind (.emit rfl) fun _ => .branch ht

/-- The second operand is left out if the first one decides. -/
lemma bothJump (all want : Bool) :
    Lowering.Embeds env P (p ∨ q) X (bothJump all l r want target) := by
  refine .ite (fun _ => ?_) fun _ => .bind (hl.jump ht) fun _ => hr.jump ht
  intro σ u σ' hk h
  obtain ⟨skip, σ₁, -, w, h⟩ := (Laid.refl hk).newLabel_bind h
  obtain ⟨_, σ₂, w, h⟩ := w.embed_bind (hl.jump (Set.mem_singleton skip)) (by simp) h
  obtain ⟨_, σ₃, w, h⟩ := w.embed_bind (hr.jump (Set.mem_singleton target)) (by simp [ht]) h
  exact (w.join (by simp) h).close (by simp) (Or.imp_left .inr)

end

lemma condValue (ht : test.Embeds env P p) (hy : yes.Embeds env P q) (hn : no.Embeds env P s)
    (ty : Ty) : Lowering.Embeds env P (p ∨ q ∨ s) X (condValue test yes no ty) :=
  .diamond (fun l => ht.jump (Set.mem_singleton l)) (hy.as ty) (hn.as ty)

/-! ### Equality and hashes -/

lemma comparesValues (l r : Operand) : Lowering.Tidy env X (comparesValues l r) :=
  .bind (.type l) fun _ => .ite (.pure _) (.bind (.type r) fun _ => .pure _)

section

variable (hl : l.Embeds env P p) (hr : r.Embeds env P q)

include hl hr

/-- Primitives are compared, and objects are asked. -/
lemma equalJump {target : Label} (ht : target ∈ X) (want : Bool) :
    Lowering.Embeds env P (p ∨ q) X (equalJump l r want target) :=
  .after (comparesValues l r) fun _ => .ite (fun _ => compareJump ht hl hr .eq want)
    fun _ => .before (hl.equalObjects hr) fun _ => .testInt want ht

lemma equalOperand : (equalOperand l r).Embeds env P (p ∨ q) := by
  have hj : (Lowering.ofJump (.same .byValue l.term r.term) (Lowering.equalJump l r)).Embeds env P
      (p ∨ q) :=
    ofJump (fun _ => rfl) fun ht => equalJump hl hr ht _
  exact { hj with
    value := .placed _ (.after (comparesValues l r) fun _ =>
      .ite (fun _ => .materialize hj.jump) fun _ => hl.equalObjects hr) }

lemma differOperand : (differOperand l r).Embeds env P (p ∨ q) :=
  ofJump (fun _ => rfl) fun ht => (hl.equalOperand hr).jump ht

end

section

variable (ho : o.Embeds env P p)

include ho

/-- The platform has a method for the hash of each kind of value. -/
lemma hashValue : Lowering.Embeds env P p X (hashValue o) := by
  refine .after (.type o) fun _ => ?_
  split
  · split
    · exact .fail _
    · exact .before ho.value fun _ => .invoke rfl
  · exact .before ho.value fun _ => .invoke rfl
  · exact .before ho.value fun _ => .invoke rfl

lemma classValue : Lowering.Embeds env P p X (classValue o) := .before ho.ref fun _ => .invoke rfl

lemma instanceValue (ty : Ty) : Lowering.Embeds env P p X (instanceValue o ty) :=
  .before ho.ref fun _ => .orFail (.of_straight (.bind (.classIndex ty) fun _ => .emitShort rfl _))

end

end Operand.Embeds

end Classwright.Lowering
