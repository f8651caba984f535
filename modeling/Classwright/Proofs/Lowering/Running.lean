import Classwright.Proofs.ClassFile.Resolution
import Classwright.Proofs.Lowering.Adding

/-!
What emitted instructions do.

The instruction that is decoded for an emitted one has the effect that the machine gives it: it
loads or stores a variable, or pushes a value that it has itself or finds in the pool.
-/

namespace Classwright

variable {b : Action}

/-- The forms of a load. -/
lemma Action.load_of_general {k : Kind} (h : b.general = .load k) :
    b = .load k ∨ ∃ j, b = .loadAt k j := by
  cases b <;> simp_all [general]

/-- The forms of a store. -/
lemma Action.store_of_general {k : Kind} (h : b.general = .store k) :
    b = .store k ∨ ∃ j, b = .storeAt k j := by
  cases b <;> simp_all [general]

/-- An opcode with a general form does something. -/
lemma Opcode.exists_action?_of_general {o : Opcode} {a : Action} (h : o.general = a.opcode) :
    ∃ b, o.action? = some b ∧ b.general = a := by
  cases hb : o.action? with
  | none =>
    unfold general at h
    rw [hb] at h
    rw [show o = a.opcode from h, action?_opcode] at hb
    cases hb
  | some b =>
    refine ⟨b, rfl, Option.some.inj ?_⟩
    rw [← action?_opcode b.general, ← action?_opcode a, ← h, general_of_action? hb]

/-- Instructions that go on to the next one and call nothing. -/
def Action.isPlain (a : Action) : Bool :=
  (Machine.callKind? a).isNone && !a.endsBlock && !a.isBranch

lemma Action.isPlain_iff :
    b.isPlain ↔ Machine.callKind? b = none ∧ b.endsBlock = false ∧ b.isBranch = false := by
  simp [isPlain, and_assoc]

lemma Insn.action?_of_op {i : Insn} (h : i.op = b.opcode) : i.op.action? = some b :=
  h ▸ Opcode.action?_opcode b

lemma Machine.poolIndex_toNat (index : UInt16) : poolIndex index.toNat = index := by
  have := index.toNat_lt
  apply UInt16.toNat_inj.1
  rw [poolIndex, UInt16.ofInt, UInt16.toNat_ofNat']
  omega

/-- An instruction loads the constant at an index. -/
def Insn.Loads (i : Insn) (index : UInt16) : Prop :=
  ∃ a, i.op.action? = some a ∧ (a = .ldc ∨ a = .ldcWide ∨ a = .ldcTwo) ∧ i.operand = index.toNat

/-! ### Emitted instructions -/

namespace Emission

variable {e : Emission} {index : UInt16}

/-- The instruction that is decoded for an emitted one does what a computation says, and goes on to
the next. -/
def Performs (e : Emission) (x : Machine.Op Unit) : Prop :=
  ∀ position? i, e.Yields position? i → ∃ a, i.op.action? = some a ∧ a.isPlain ∧
    ∀ inv, Machine.perform inv i a = x

/-- The instruction that is decoded for an emitted one loads a constant of the pool. -/
def Loads (e : Emission) (index : UInt16) : Prop :=
  ∀ position? i, e.Yields position? i → i.Loads index

lemma Loads.performs (h : e.Loads index) :
    e.Performs (do Machine.push (← Machine.constant index.toNat)) := by
  intro position? i hy
  obtain ⟨a, ha, hkind, ho⟩ := h position? i hy
  rw [← ho]
  rcases hkind with rfl | rfl | rfl <;> exact ⟨_, ha, rfl, fun inv => rfl⟩

lemma performs_plain {x : Machine.Op Unit} (hb : b.isPlain)
    (h : ∀ inv i, Machine.perform inv i b = x) : (plain b.opcode).Performs x :=
  fun _ i hy => ⟨b, Insn.action?_of_op (by rw [hy]), hb, fun inv => h inv i⟩

lemma loads_short (hb : b = .ldcWide ∨ b = .ldcTwo) (index : UInt16) :
    (short b.opcode index).Loads index :=
  fun _ i hy => ⟨b, Insn.action?_of_op (by rw [hy]), .inr hb, by rw [hy]⟩

lemma performs_load (k : Kind) (n : Nat) :
    (slot (Action.load k).opcode n).Performs (do Machine.push (← Machine.load n)) := by
  rintro position? i ⟨hop, ho⟩
  obtain ⟨b, hb, hgen⟩ := Opcode.exists_action?_of_general hop
  rw [← ho]
  rcases Action.load_of_general hgen with rfl | ⟨j, rfl⟩ <;> exact ⟨_, hb, rfl, fun inv => rfl⟩

lemma performs_store (k : Kind) (n : Nat) :
    (slot (Action.store k).opcode n).Performs (do Machine.store n (← Machine.pop)) := by
  rintro position? i ⟨hop, ho⟩
  obtain ⟨b, hb, hgen⟩ := Opcode.exists_action?_of_general hop
  rw [← ho]
  rcases Action.store_of_general hgen with rfl | ⟨j, rfl⟩ <;> exact ⟨_, hb, rfl, fun inv => rfl⟩

end Emission

/-- The value of a constant at an index. -/
def Pool.Denotes (p : Pool) (i : UInt16) : Machine.Value → Prop
  | .int v => p.entry i = .ok (.int v.toUInt32)
  | .long v => p.entry i = .ok (.long v.toUInt64)
  | .float bits => p.entry i = .ok (.float bits)
  | .double bits => p.entry i = .ok (.double bits)
  | .str s => ∃ n, p.entry i = .ok (.str n) ∧ p.utf8At n = .ok s
  | _ => False

lemma Pool.Extends.denotes {p q : Pool} {i : UInt16} {v : Machine.Value} (he : p.Extends q)
    (h : p.Denotes i v) : q.Denotes i v := by
  cases v with
  | int | long | float | double => exact he.entry h
  | str s =>
    obtain ⟨n, hn, hs⟩ := h
    exact ⟨n, he.entry hn, he.utf8At hs⟩
  | _ => exact h

lemma Machine.constant_apply {f : Frame} {s : State} {index : UInt16} {v : Value}
    (h : f.routine.pool.Denotes index v) : constant index.toNat f s = ((.ok v, f), s) := by
  show (liftM (pooled (f.routine.pool.entry (poolIndex index.toNat))) >>= _ : Op Value) f s = _
  rw [poolIndex_toNat]
  cases v with
  | int | long | float | double =>
    rw [show f.routine.pool.entry index = _ from h, lift_bind]
    rfl
  | str t =>
    obtain ⟨n, hn, ht⟩ := h
    rw [hn, lift_bind]
    show (liftM (pooled (f.routine.pool.utf8At n)) >>= _ : Op Value) f s = _
    rw [ht]
    rfl
  | _ => exact h.elim

namespace Lowering

open Machine (Value perform)

/-- Lowering that always emits an instruction. -/
def Always (x : Lower Unit) (e : Emission) : Prop :=
  ∀ env σ, ∃ item, e.Emits item ∧ x env σ = .ok ((), { σ with code := σ.code.push item })

/-- Instructions that load the constant at an index. -/
def Finds (f : UInt16 → Lower Unit) : Prop :=
  ∀ index, ∃ e, Single (f index) e ∧ e.Loads index ∧ Always (f index) e

lemma finds_ldcTwo : Finds (emitShort .ldcTwo) :=
  fun index => ⟨_, .emitShort rfl (by simp) _, Emission.loads_short (.inr rfl) index,
    fun _ _ => ⟨_, rfl, rfl⟩⟩

lemma finds_loadConst : Finds loadConst := by
  intro index
  unfold loadConst
  split_ifs with h255
  · refine ⟨_, .emitByte rfl (by simp) _,
      fun _ i hy => ⟨.ldc, Insn.action?_of_op (by rw [hy]), .inl rfl, ?_⟩, fun _ _ => ⟨_, rfl, rfl⟩⟩
    rw [hy, UInt16.toNat_toUInt8]
    dsimp only
    omega
  · exact ⟨_, .emitShort rfl (by simp) index, Emission.loads_short (.inl rfl) index,
      fun _ _ => ⟨_, rfl, rfl⟩⟩

/-- Lowering of one instruction that pushes a value. -/
def Direct (x : Lower Unit) (w : Value) : Prop :=
  ∃ e, Single x e ∧ e.Performs (Machine.push w) ∧ Always x e

lemma direct_emit {a : Action} {w : Value} (ha : a.operandLength = some 0) (hplain : a.isPlain)
    (h : ∀ inv i, perform inv i a = Machine.push w) : Direct (emit a) w := by
  refine ⟨_, .emit ha, Emission.performs_plain hplain h, fun env σ => ⟨_, rfl, ?_⟩⟩
  have hend : a.opcode.endsBlock = false := by
    simp [Opcode.endsBlock, Opcode.action?_opcode, (Action.isPlain_iff.1 hplain).2.1]
  show Except.ok ((), { σ with code := σ.code.emit a.opcode }) = _
  rw [Code.emit, hend]
  rfl

/-- A number is pushed by one instruction, or it is a constant of the pool. -/
lemma pushInt_cases (n : Int) : Direct (pushInt n) (.int (.ofInt n)) ∨
    pushInt n = pooling (Pool.int (.ofInt n)) >>= loadConst := by
  unfold pushInt
  split_ifs with hconst hbyte hshort
  · refine .inl (direct_emit rfl rfl fun inv i => ?_)
    have hval : (((n + 1).toNat : Int) - 1) = n := by omega
    show Machine.push (.int (.ofInt (((n + 1).toNat : Int) - 1))) = _
    rw [hval]
  · refine .inl ⟨_, .pushByte _,
      fun _ i hy => ⟨.pushByte, Insn.action?_of_op (by rw [hy]), rfl, fun inv => ?_⟩,
      fun _ _ => ⟨_, rfl, rfl⟩⟩
    have ho : i.operand = n := by
      rw [hy, UInt8.toInt8_ofInt]
      exact Int8.toInt_ofInt_of_le hbyte.1 (by omega)
    exact ho ▸ rfl
  · refine .inl ⟨_, .pushShort _, fun _ i hy => ⟨.pushShort, Insn.action?_of_op (by rw [hy]), rfl,
      fun inv => ?_⟩, fun _ _ => ⟨_, rfl, rfl⟩⟩
    have ho : i.operand = n := by
      rw [hy, UInt16.toInt16_ofInt]
      exact Int16.toInt_ofInt_of_le hshort.1 (by omega)
    exact ho ▸ rfl
  · exact .inr rfl

lemma pushLong_cases (n : Int64) : Direct (pushLong n) (.long n) ∨
    pushLong n = pooling (Pool.long n) >>= emitShort .ldcTwo := by
  unfold pushLong
  split_ifs with h0 h1
  · exact .inl (h0 ▸ direct_emit rfl rfl fun _ _ => rfl)
  · exact .inl (h1 ▸ direct_emit rfl rfl fun _ _ => rfl)
  · exact .inr rfl

end Lowering

end Classwright
