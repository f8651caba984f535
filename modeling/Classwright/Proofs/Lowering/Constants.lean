import Classwright.Lowering.Body
import Classwright.Proofs.Outcome

/-!
Known constants.

What a computation gives is followed step by step where the code and the constants of its state are
known (`State.put`). Of a constant only the index goes into the code, so that it is enough to know
the indices of those that a computation asks for. A method on its own starts from `State.bare` with
the constants of `Pool.ofEntries`.
-/

namespace Classwright

lemma Except.toOption_bind {ε α β : Type} (x : Except ε α) (f : α → Except ε β) :
    (x >>= f).toOption = x.toOption.bind fun a => (f a).toOption := by
  cases x <;> rfl

/-- A pool with some constants in order, none of which is wide. -/
def Pool.ofEntries (es : List Entry) : Pool where
  entries := (none :: es.map some).toArray
  index := (es.zipIdx 1).foldl (fun index x => index.insert x.1 (UInt16.ofNat x.2)) ∅

namespace Lowering

/-- The context of a method in a class that has nothing else. -/
def Env.alone (owner : String) (m : Method) : Env :=
  Lowering.env { decl := { ty := { name := owner } } } m inlineDepth

/-- The scope and the slots of a method before its body, whose parameters take some slots. -/
def State.bare (slots : Nat) : State :=
  { scopes := [{ base := slots }], next := slots, maxLocals := slots }

/-- A state with other code and constants. -/
def State.put (σ : State) (c : Code) (p : Pool) : State := { σ with code := c, pool := p }

variable {α β : Type} {env : Env} {σ : State} {c : Code} {p : Pool}

/-- A sequence goes on from where its first part has led. -/
lemma toOption_bind (x : Lower α) (f : α → Lower β) :
    ((x >>= f) env σ).toOption = (x env σ).toOption.bind fun r => (f r.1 env r.2).toOption :=
  Except.toOption_bind (x env σ) fun r => f r.1 env r.2

lemma toOption_pure (a : α) : ((pure a : Lower α) env σ).toOption = some (a, σ) := rfl

lemma toOption_read : ((read : Lower Env) env σ).toOption = some (env, σ) := rfl

/-- Only errors have a place. -/
lemma toOption_placed (place : String) (x : Lower α) :
    (placed place x env σ).toOption = (x env σ).toOption := by
  unfold placed
  split
  · next h => rw [h]; rfl
  · rfl

lemma toOption_onCode (f : Code → Code) :
    (onCode f env (σ.put c p)).toOption = some ((), σ.put (f c) p) := rfl

/-- The assembler may refuse what is asked of it. -/
lemma toOption_onCode? (f : Code → Except Misuse Code) :
    (onCode? f env (σ.put c p)).toOption = (f c).toOption.map fun c => ((), σ.put c p) := by
  have hcode : (σ.put c p).code = c := rfl
  rw [onCode?, hcode]
  cases f c <;> rfl

lemma toOption_withCode (f : Code → α × Code) :
    (withCode f env (σ.put c p)).toOption = some ((f c).1, σ.put (f c).2 p) := rfl

lemma toOption_pooling (m : PoolM α) :
    (pooling m env (σ.put c p)).toOption = some ((m p).1, σ.put c (m p).2) := rfl

/-- A method is lowered from its start with the given constants. -/
lemma toOption_lower (u : ClassUnit) (m : Method) (p : Pool) :
    (lower u m p).toOption = (methodBody m (Lowering.env u m inlineDepth)
    (State.start m p)).toOption.map fun r => (r.1, r.2.pool) := by
  unfold lower
  cases methodBody m (Lowering.env u m inlineDepth) (State.start m p) <;> rfl

/-- Nothing but the size of the index matters. -/
lemma toOption_loadConst (i : UInt16) : (loadConst i env (σ.put c p)).toOption = some ((), σ.put
    (if i.toNat ≤ 255 then c.emitByte Action.ldc.opcode i.toUInt8 else c.emitShort
    Action.ldcWide.opcode i) p) := by
  unfold loadConst
  split <;> rfl

end Lowering

end Classwright
