import Classwright.Lowering.Body
import Classwright.Proofs.Bytecode.Transcript
import Classwright.Proofs.ClassFile.Pool
import Classwright.Proofs.Machine.Reached

/-!
What lowering emits.

Successful computations of the lowering are taken apart, down to those that add an instruction, a
label or a constant. Most of them change nothing else (`Emits`); the code and the pool only grow.
-/

namespace Classwright

/-- An instruction with the two-byte index of a constant, or with a two-byte constant. -/
def Action.takesShort (a : Action) : Bool :=
  a.operandLength == some 2 && !a.isBranch && a != .increment

namespace Lowering

variable {α β : Type} {env : Env} {σ σ' τ : State} {u : Unit}

/-! ### Computations -/

/-- A sequence succeeds by way of a state between its parts. -/
lemma bind_eq_ok_iff {x : Lower α} {f : α → Lower β} {b : β} :
    (x >>= f) env σ = .ok (b, σ') ↔ ∃ a τ, x env σ = .ok (a, τ) ∧ f a env τ = .ok (b, σ') :=
  StateT.bind_eq_ok_iff (x := x env) (f := fun a => f a env)

lemma pure_eq_ok_iff {a b : α} : (pure a : Lower α) env σ = .ok (b, σ') ↔ a = b ∧ σ = σ' :=
  StateT.pure_eq_ok_iff

lemma get_eq_ok_iff : (get : Lower State) env σ = .ok (τ, σ') ↔ σ = τ ∧ σ = σ' :=
  StateT.get_eq_ok_iff

lemma get_bind_eq_ok_iff {f : State → Lower α} {r : α × State} :
    (get >>= f) env σ = .ok r ↔ f σ env σ = .ok r := .rfl

lemma modify_eq_ok_iff {f : State → State} :
    (modify f : Lower Unit) env σ = .ok (u, σ') ↔ f σ = σ' := StateT.modify_eq_ok_iff

lemma read_eq_ok_iff {e : Env} : (read : Lower Env) env σ = .ok (e, σ') ↔ env = e ∧ σ = σ' :=
  StateT.pure_eq_ok_iff

/-- To read the context first changes nothing. -/
lemma read_bind_eq_ok_iff {f : Env → Lower α} {r : α × State} :
    (read >>= f) env σ = .ok r ↔ f env env σ = .ok r := .rfl

lemma throw_ne_ok {e : Stop} {r : α × State} : (throw e : Lower α) env σ ≠ .ok r :=
  StateT.throw_ne_ok (s := σ)

lemma fail_ne_ok {c : Cause} {r : α × State} : (fail c : Lower α) env σ ≠ .ok r := throw_ne_ok

lemma mismatch_ne_ok {m : Mismatch} {r : α × State} : (mismatch m : Lower α) env σ ≠ .ok r :=
  throw_ne_ok

/-- A place is given to errors only. -/
lemma placed_eq_ok_iff {x : Lower α} {place : String} {a : α} :
    placed place x env σ = .ok (a, σ') ↔ x env σ = .ok (a, σ') := by
  unfold placed
  split
  · next h => simp [h]
  · rfl

/-- What is sound leaves the state as it is. -/
lemma sound_eq_ok_iff {x : Except Misuse α} {a : α} :
    sound x env σ = .ok (a, σ') ↔ x = .ok a ∧ σ = σ' := by
  cases x with
  | ok b => simpa [sound] using pure_eq_ok_iff
  | error e => simpa [sound] using throw_ne_ok

lemma onCode_eq_ok_iff {f : Code → Code} :
    onCode f env σ = .ok (u, σ') ↔ { σ with code := f σ.code } = σ' := modify_eq_ok_iff

/-- The assembler may refuse an operation. -/
lemma onCode?_eq_ok_iff {f : Code → Except Misuse Code} :
    onCode? f env σ = .ok (u, σ') ↔ ∃ c, f σ.code = .ok c ∧ { σ with code := c } = σ' := by
  unfold onCode?
  cases f σ.code <;> simp

/-- An operation that gives something, such as a label. -/
lemma withCode_eq_ok_iff {f : Code → α × Code} {a : α} : withCode f env σ = .ok (a, σ') ↔
    (f σ.code).1 = a ∧ { σ with code := (f σ.code).2 } = σ' := by
  have h : withCode f env σ = .ok ((f σ.code).1, { σ with code := (f σ.code).2 }) := rfl
  rw [h, Except.ok.injEq, Prod.mk.injEq]

/-- To add constants never fails. -/
lemma pooling_eq_ok_iff {m : PoolM α} {a : α} : pooling m env σ = .ok (a, σ') ↔
    (m σ.pool).1 = a ∧ { σ with pool := (m σ.pool).2 } = σ' := by
  have h : pooling m env σ = .ok ((m σ.pool).1, { σ with pool := (m σ.pool).2 }) := rfl
  rw [h, Except.ok.injEq, Prod.mk.injEq]

/-! ### Code and constants -/

/-- Lowering that adds code and constants and changes nothing else. -/
structure Emits (σ σ' : State) : Prop where
  rest : σ' = { σ with code := σ'.code, pool := σ'.pool }
  code : σ.code.Grows σ'.code
  guards : σ'.code.guards = σ.code.guards
  coherent : σ.pool.Coherent → σ'.pool.Coherent
  pool : σ.pool.Coherent → σ.pool.Extends σ'.pool

/-- What holds of the code and the pool throughout. -/
structure Ready (σ : State) : Prop where
  laid : σ.code.Laid
  coherent : σ.pool.Coherent

lemma Emits.refl (σ : State) : Emits σ σ := ⟨rfl, .refl _, rfl, id, fun _ => .refl _⟩

lemma Emits.trans (h : Emits σ τ) (h' : Emits τ σ') : Emits σ σ' where
  rest := by rw [h'.rest, h.rest]
  code := h.code.trans h'.code
  guards := h'.guards.trans h.guards
  coherent hp := h'.coherent (h.coherent hp)
  pool hp := (h.pool hp).trans (h'.pool (h.coherent hp))

/-- Code alone that grows. -/
lemma Emits.of_code {c : Code} (h : σ.code.Grows c) (hg : c.guards = σ.code.guards) :
    Emits σ { σ with code := c } :=
  ⟨rfl, h, hg, id, fun _ => .refl _⟩

lemma Ready.emits (hr : Ready σ) (h : Emits σ σ') : Ready σ' :=
  ⟨h.code.laid hr.laid, h.coherent hr.coherent⟩

/-! ### Instructions -/

section

variable {a : Action} {l : Label}

lemma emit_eq_ok (h : emit a env σ = .ok (u, σ')) : σ' = { σ with code := σ.code.emit a.opcode } :=
  (onCode_eq_ok_iff.1 h).symm

/-- A branch notes its label, and may end the block. -/
lemma branch_eq_ok (h : branch a l env σ = .ok (u, σ')) :
    σ' = { σ with code := { σ.code.branched a.opcode l with
      reachable := σ.code.reachable && !a.endsBlock } } := by
  obtain ⟨c, hc, rfl⟩ := onCode?_eq_ok_iff.1 h
  rw [(Code.emitJump_eq_ok hc).2]
  simp only [Opcode.endsBlock, Opcode.action?_opcode, Option.any_some]

lemma newLabel_eq_ok (h : newLabel env σ = .ok (l, σ')) :
    l = σ.code.newLabel.1 ∧ σ' = { σ with code := σ.code.newLabel.2 } := by
  obtain ⟨h, h'⟩ := withCode_eq_ok_iff.1 h
  exact ⟨h.symm, h'.symm⟩

/-- Lowering of one instruction, which refers to no label. -/
structure Single (x : Lower Unit) (e : Emission) : Prop where
  fits : e.Fits
  labels : e.labels = []
  emission : ∀ {env σ u σ'}, x env σ = .ok (u, σ') →
    ∃ d, σ.code.emission e = .ok d ∧ { σ with code := d } = σ'

namespace Single

lemma emit (ha : a.operandLength = some 0) : Single (emit a) (.plain a.opcode) :=
  ⟨by rwa [Emission.Fits, Opcode.action?_opcode], rfl, fun h => ⟨_, rfl, onCode_eq_ok_iff.1 h⟩⟩

/-- The operand of `pushByte` is signed, which is another format. -/
lemma emitByte (ha : a.operandLength = some 1) (hpush : a ≠ .pushByte) (v : UInt8) :
    Single (emitByte a v) (.byte a.opcode v) :=
  ⟨by simpa [Emission.Fits, Opcode.action?_opcode, ha] using hpush, rfl, fun h =>
    ⟨_, rfl, onCode_eq_ok_iff.1 h⟩⟩

lemma pushByte (v : UInt8) :
    Single (Lowering.emitByte .pushByte v) (.signedByte Action.pushByte.opcode v.toInt8) :=
  ⟨Opcode.action?_opcode _, rfl, fun h => ⟨_, rfl, onCode_eq_ok_iff.1 h⟩⟩

/-- So is that of `pushShort`. -/
lemma emitShort (ha : a.takesShort) (hpush : a ≠ .pushShort) (v : UInt16) :
    Single (emitShort a v) (.short a.opcode v) := by
  refine ⟨?_, rfl, fun h => ⟨_, rfl, onCode_eq_ok_iff.1 h⟩⟩
  simp only [Action.takesShort, Bool.and_eq_true, beq_iff_eq, Bool.not_eq_true', bne_iff_ne] at ha
  obtain ⟨⟨hlen, hbranch⟩, hincr⟩ := ha
  simp [Emission.Fits, Opcode.isBranch, Opcode.action?_opcode, hlen, hbranch, hpush, hincr]

lemma pushShort (v : UInt16) :
    Single (Lowering.emitShort .pushShort v) (.signedShort Action.pushShort.opcode v.toInt16) :=
  ⟨Opcode.action?_opcode _, rfl, fun h => ⟨_, rfl, onCode_eq_ok_iff.1 h⟩⟩

/-- The form of the instruction depends on the slot. -/
lemma onLocal (a : Action) (slot : Nat) :
    Single (onCode? (·.emitLocal a.opcode slot)) (.slot a.opcode slot) :=
  ⟨trivial, rfl, onCode?_eq_ok_iff.1⟩

/-- An instruction adds code and nothing else. -/
lemma emits {x : Lower Unit} {e : Emission} (hx : Single x e) (h : x env σ = .ok (u, σ')) :
    Emits σ σ' := by
  obtain ⟨d, hd, rfl⟩ := hx.emission h
  obtain ⟨hgrows, hguards⟩ := Code.emission_grows hx.fits hx.labels hd
  exact .of_code hgrows hguards

end Single

/-- So does a branch to a label that exists. -/
lemma branch_emits (ha : a.isBranch) (hl : l.id < σ.code.labels.size)
    (h : branch a l env σ = .ok (u, σ')) : Emits σ σ' := by
  rw [branch_eq_ok h]
  exact .of_code ((Code.branched_grows (Item.proper_jump ha l) hl).trans (Code.grows_reachable _))
    (Code.branched_awaits _).guards

lemma newLabel_emits (h : newLabel env σ = .ok (l, σ')) : Emits σ σ' := by
  rw [(newLabel_eq_ok h).2]
  exact .of_code (Code.grows_push_label {} (.inl rfl)) rfl

lemma size_newLabel (h : newLabel env σ = .ok (l, σ')) : σ'.code.size = σ.code.size := by
  obtain ⟨-, rfl⟩ := newLabel_eq_ok h
  rfl

/-- A label that is resolved lets code be reached, but adds none. -/
lemma mark_emits (h : mark l env σ = .ok (u, σ')) : Emits σ σ' := by
  obtain ⟨c, hc, rfl⟩ := onCode?_eq_ok_iff.1 h
  obtain ⟨hp, e, rfl, he⟩ := Code.mark_eq_ok hc
  exact .of_code (Code.marked_grows hp he) rfl

lemma join_emits (h : join l env σ = .ok (u, σ')) : Emits σ σ' := by
  obtain ⟨c, hc, rfl⟩ := onCode?_eq_ok_iff.1 h
  obtain ⟨hp, e, rfl, he⟩ := Code.join_eq_ok hc
  exact .of_code (Code.marked_grows hp he) rfl

/-- A label that is joined is at the place, and control comes there if a branch does. -/
lemma join_spec (hl : l.id < σ.code.labels.size) (h : join l env σ = .ok (u, σ')) :
    σ'.code.position? l = some σ.code.size ∧ σ'.code.size = σ.code.size ∧
      (σ.code.reachable ∨ σ.code.Referred l → σ'.code.reachable) := by
  obtain ⟨c, hc, rfl⟩ := onCode?_eq_ok_iff.1 h
  obtain ⟨hp, e, rfl, he⟩ := Code.join_eq_ok hc
  refine ⟨Code.position?_marked hl, rfl, fun hr => ?_⟩
  rcases hr with hr | hr
  · simp [Code.marked, hr]
  -- a branch that waits for the label is a way to it
  · have : (σ.code.labelState l).pending ≠ [] := hr.resolve_left (by simp [hp])
    simp [Code.marked, this]

/-- A label that is marked is at the place, and control comes there. -/
lemma mark_spec (hl : l.id < σ.code.labels.size) (h : mark l env σ = .ok (u, σ')) :
    σ'.code.position? l = some σ.code.size ∧ σ'.code.size = σ.code.size ∧ σ'.code.reachable := by
  obtain ⟨c, hc, rfl⟩ := onCode?_eq_ok_iff.1 h
  obtain ⟨hp, e, rfl, he⟩ := Code.mark_eq_ok hc
  exact ⟨Code.position?_marked hl, rfl, rfl⟩

end

end Lowering

end Classwright
