import Classwright.Machine.Run
import Classwright.Proofs.Outcome

/-!
Steps of the machine.

The laws of its two kinds of computations, and what single instructions do to a frame whose stack
has what they take.
-/

namespace Classwright.Machine

/-! ### Computations -/

variable {α β : Type}

lemma bind_apply (x : Exec α) (f : α → Exec β) (s : State) :
    (x >>= f) s = match x s with
      | (.ok a, s') => f a s'
      | (.error e, s') => (.error e, s') := by
  show ExceptT.bindCont f (x s).1 (x s).2 = _
  rcases x s with ⟨_ | _, _⟩ <;> rfl

/-- A computation on the machine leaves the frame alone. -/
lemma lift_bind (x : Exec α) (k : α → Op β) (f : Frame) (s : State) :
    ((liftM x : Op α) >>= k) f s = match x s with
      | (.ok a, s') => k a f s'
      | (.error e, s') => ((.error e, f), s') := by
  show ExceptT.bindCont k (x s).1 f (x s).2 = _
  rcases x s with ⟨_ | _, _⟩ <;> rfl

/-- A computation in a frame, or with some other state. -/
lemma Op.bind_apply {φ : Type} (x : ExceptT Stop (StateT φ (StateM State)) α)
    (k : α → ExceptT Stop (StateT φ (StateM State)) β) (f : φ) (s : State) :
    (x >>= k) f s = match x f s with
      | ((.ok a, f'), s') => k a f' s'
      | ((.error e, f'), s') => ((.error e, f'), s') := by
  show ExceptT.bindCont k (x f s).1.1 (x f s).1.2 (x f s).2 = _
  rcases x f s with ⟨⟨_ | _, _⟩, _⟩ <;> rfl

lemma Op.bind_eq_ok {x : Op α} {k : α → Op β} {f f' : Frame} {s s' : State} {b : β}
    (h : (x >>= k) f s = ((.ok b, f'), s')) :
    ∃ a g t, x f s = ((.ok a, g), t) ∧ k a g t = ((.ok b, f'), s') := by
  rw [Op.bind_apply] at h
  generalize x f s = r at h ⊢
  obtain ⟨⟨_ | a, g⟩, t⟩ := r
  · cases h
  · exact ⟨a, g, t, rfl, h⟩

/-- A new exception of a class is thrown. -/
lemma raise_apply (cls message : String) (s : State) :
    ∃ id s', (raise cls message : Exec α) s = (.error (.thrown id), s') ∧
    ∃ o, s'.object? id = some o ∧ o.cls = cls := by
  unfold raise
  cases message != ""
  · refine ⟨_, _, rfl, { cls }, ?_, rfl⟩
    simp [State.object?]
  · refine ⟨_, _, rfl, ⟨cls, [(messageField, .str message)], .value .null⟩, ?_, rfl⟩
    simp [State.object?, State.changeObject, Array.getElem_modify, put]

/-! ### Instructions -/

section

variable {inv : Invoke} {i : Insn} {a : Action} {r : Routine} {L : Array Value} {st : List Value}
  {f f' : Frame} {s s' : State} {slot : Nat} {k : Kind} {v : Value}

section

variable (ha : i.op.action? = some a)

include ha

/-- An instruction that is neither a branch nor an end goes on to the next. -/
lemma step_eq (he : a.endsBlock = false) (hb : a.isBranch = false) :
    step inv i = (do
      perform inv i a
      return Next.goto i.next) := by
  unfold step
  rw [ha]
  cases a <;> first | rfl | exact absurd he Bool.noConfusion | exact absurd hb Bool.noConfusion

lemma step_of_perform (he : a.endsBlock = false)
    (hb : a.isBranch = false) (h : perform inv i a f s = ((.ok (), f'), s')) :
    step inv i f s = ((.ok (.goto i.next), f'), s') := by
  rw [step_eq ha he hb, Op.bind_apply, h]
  rfl

lemma step_of_perform_error {e : Stop} (he : a.endsBlock = false)
    (hb : a.isBranch = false) (h : perform inv i a f s = ((.error e, f'), s')) :
    step inv i f s = ((.error e, f'), s') := by
  rw [step_eq ha he hb, Op.bind_apply, h]

/-- A branch goes on to its target or to the next. -/
lemma step_branch (hb : a.isBranch) :
    step inv i = (do return Next.goto (if ← taken a then i.operand else i.next)) := by
  unfold step
  rw [ha]
  cases a <;> first | rfl | exact absurd hb Bool.noConfusion

lemma step_of_taken {b : Bool} (hb : a.isBranch) (h : taken a f s = ((.ok b, f'), s')) :
    step inv i f s = ((.ok (.goto (if b then i.operand else i.next)), f'), s') := by
  rw [step_branch ha hb, Op.bind_apply, h]
  rfl

lemma step_of_taken_error {e : Stop} (hb : a.isBranch)
    (h : taken a f s = ((.error e, f'), s')) : step inv i f s = ((.error e, f'), s') := by
  rw [step_branch ha hb, Op.bind_apply, h]

end

lemma step_returnValue (ha : i.op.action? = some (.returnValue k)) :
    step inv i ⟨r, L, v :: st⟩ s = ((.ok (.done v), ⟨r, L, st⟩), s) := by
  unfold step
  rw [ha]
  rfl

lemma step_returnVoid (ha : i.op.action? = some .returnVoid) :
    step inv i f s = ((.ok (.done .null), f), s) := by
  unfold step
  rw [ha]
  rfl

lemma slot_apply (hlt : slot < L.size) :
    Machine.slot slot ⟨r, L, st⟩ s = ((.ok slot, ⟨r, L, st⟩), s) := by
  show (if 0 ≤ (slot : Int) ∧ (slot : Int).toNat < L.size then (pure (slot : Int).toNat : Op Nat)
    else throw (.fault .crash)) ⟨r, L, st⟩ s = _
  rw [if_pos (by omega)]
  rfl

lemma load_apply (hv : L[slot]? = some v) : load slot ⟨r, L, st⟩ s = ((.ok v, ⟨r, L, st⟩), s) := by
  have hlt : slot < L.size := (Array.getElem?_eq_some_iff.1 hv).1
  rw [load, Op.bind_apply, slot_apply hlt]
  show ((Except.ok (L.getD slot .null), _), _) = _
  simp [Array.getD_eq_getD_getElem?, hv]

lemma push_load_apply (hv : L[slot]? = some v) :
    (do push (← load slot) : Op Unit) ⟨r, L, st⟩ s = ((.ok (), ⟨r, L, v :: st⟩), s) := by
  rw [Op.bind_apply, load_apply hv]
  rfl

lemma pop_store_apply (hlt : slot < L.size) :
    (do store slot (← pop) : Op Unit) ⟨r, L, v :: st⟩ s =
    ((.ok (), ⟨r, L.setIfInBounds slot v, st⟩), s) := by
  show store slot v ⟨r, L, st⟩ s = _
  rw [store, Op.bind_apply, slot_apply hlt]
  rfl

end

/-! ### Kinds of instructions -/

/-- How an instruction calls a method, if it does. -/
def callKind? : Action → Option CallKind
  | .invokeStatic => some .static
  | .invokeVirtual | .invokeInterface => some .virtual
  | .invokeSpecial => some .special
  | _ => none

end Classwright.Machine
