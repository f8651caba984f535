import Classwright.Proofs.Lowering.Comparisons
import Classwright.Proofs.Machine.Endings

/-!
Running code that evaluates.

A `Scene` is a store that code is run over: the visible variables have their values in their slots.
The code does there what an evaluation says, without calls (`meant`): it leaves a value (`Yields`),
takes a branch (`Jumps`), or throws. So a run that comes to the code comes to what is said of the
result (`Comes`).
-/

namespace Classwright

open Machine (Invocation Recorded Value)

namespace Lowering.Performance

/-- A method at a place with scopes, and with values of its variables. -/
def having (P : Performance) (scopes : List Scope) (L : Array Value) : Performance :=
  { P with session.locals := L, scopes }

lemma Staged.having {P : Performance} (h : P.Staged) (scopes : List Scope) (L : Array Value) :
    (P.having scopes L).Staged :=
  ⟨h.fetches, h.size, h.pool, h.constants⟩

end Lowering.Performance

namespace Integral

open Lowering

/-! ### Variables -/

/-- A variable has the value of a binding in its slot. -/
structure Bound (L : Array Value) (l : Local) (b : Binding) : Prop where
  name : l.name = b.name
  type : l.ty.erase = .prim b.value.ty
  whole : isWhole b.value.ty
  range : InRange b.value.ty b.value.val
  slot : L[l.slot]? = some b.value.toValue

/-- The slots of the visible variables and of the parameters have the values of a store. -/
structure Agrees (env : Env) (scopes : List Scope) (ρ : Store) (L : Array Value) : Prop where
  locals : List.Forall₂ (Bound L) (scopes.flatMap (·.vars)) ρ.locals
  params : List.Forall₂ (Bound L) env.params ρ.params

/-! ### Outcomes -/

variable {α β : Type}

lemma divisionByZero_apply (s : Machine.State) :
    ∃ id s', ∀ α : Type, (Machine.divisionByZero : Machine.Exec α) s = (.error (.thrown id), s') :=
  ⟨_, _, fun _ => rfl⟩

/-- What an evaluation says that a run without calls does. No such run does what is undefined, which
has a call. -/
def meant : Eval α → Recorded α
  | .ok a => pure a
  | .error .arithmetic => .of Machine.divisionByZero
  | .error .undefined => fun t s => ((.error .fuel, t ++ [⟨.static, ⟨"", "", "", false⟩, []⟩]), s)

lemma meant_bind (out : Eval α) (f : α → Eval β) :
    meant (out >>= f) = meant out >>= fun a => meant (f a) := by
  funext t s
  rw [Machine.Op.bind_apply]
  match out with
  | .ok a => rfl
  | .error .undefined => rfl
  | .error .arithmetic =>
    obtain ⟨id, s', h⟩ := divisionByZero_apply s
    have hmeant (γ : Type) : meant (α := γ) (.error .arithmetic) t s =
        ((.error (.thrown id), t), s') := by simp only [meant, Recorded.of, h]
    exact (hmeant β).trans (by rw [hmeant α])

lemma eq_of_returns_meant {out : Eval α} {a : α} (h : (meant out).Returns a) : out = .ok a := by
  obtain ⟨t, s, t', s', h⟩ := h
  match out, h with
  | .ok a, h =>
    cases h
    rfl
  | .error .arithmetic, h =>
    obtain ⟨id, s₁, hs⟩ := divisionByZero_apply s
    simp only [meant, Recorded.of, hs] at h
    cases h

/-- The outcome of an evaluation, in the machine. -/
def outcome : Eval Whole → Machine.Exec Value
  | .ok w => pure w.toValue
  | .error _ => Machine.divisionByZero

lemma of_outcome {out : Eval Whole} (h : out ≠ .error .undefined) :
    Recorded.of (outcome out) = Whole.toValue <$> meant out := by
  match out with
  | .ok w => rfl
  | .error .undefined => exact absurd rfl h
  | .error .arithmetic =>
    funext t s
    obtain ⟨id, s', hs⟩ := divisionByZero_apply s
    rw [← bind_pure_comp, Machine.Op.bind_apply]
    simp only [meant, outcome, Recorded.of, hs]

/-! ### Scenes -/

/-- A store that code is run over. -/
structure Scene where
  stage : Performance
  store : Store

namespace Scene

/-- Calls are free, and the variables have the values of the store. -/
def mode (S : Scene) : Mode :=
  ⟨true, Agrees S.stage.env S.stage.scopes S.store S.stage.session.locals⟩

/-- The code of a computation does what an evaluation says. -/
def Does (S : Scene) (K : List Label) (ins : List Value) (x : Lower Unit) (out : Eval α)
    (E : α → Exit → Prop) : Prop :=
  S.stage.Does S.mode K ins x (meant out) E

/-- The code of a computation leaves what an evaluation gives, a value of the type `p`. -/
def Yields (S : Scene) (ins : List Value) (x : Lower Unit) (p : Prim) (out : Eval Whole) : Prop :=
  S.stage.Gives S.mode ins x (meant out) fun w vs => vs = [w.toValue] ∧ w.ty = p ∧ InRange p w.val

/-- The code of a computation takes a branch if an evaluation says what is wanted. -/
def Jumps (S : Scene) (ins : List Value) (x : Label → Lower Unit) (out : Eval Bool) (want : Bool) :
    Prop :=
  S.stage.Branches S.mode ins x (meant out) want

variable {S : Scene} {K : List Label} {ins b : List Value} {v : Lower Unit} {w : Unit → Lower Unit}
  {p q : Prim} {c : Whole} {out : Eval Whole}

namespace Yields

lemma bind {f : Whole → Eval β} {G : β → Exit → Prop} (hv : S.Yields ins v p out) (hp : isWhole p)
    (hw : ∀ n u, InRange p n → S.Does K (Whole.toValue ⟨p, n⟩ :: b) (w u) (f ⟨p, n⟩) G) :
    S.Does K (ins ++ b) (v >>= w) (out >>= f) G := by
  unfold Scene.Does
  rw [meant_bind]
  refine Performance.Gives.bind hv ⟨⟨p, 0⟩, _, rfl, rfl, ?_⟩ fun ⟨_, n⟩ vs u hV => ?_
  · cases p <;> first | decide | cases hp
  · obtain ⟨rfl, rfl, hn⟩ := hV
    exact hw n u hn

/-- The value on top, by another name. -/
lemma map {f : Whole → Eval Whole} (hv : S.Yields ins v p out)
    (hf : ∀ n, InRange p n → ∃ m, f ⟨p, n⟩ = .ok ⟨q, m⟩ ∧
    Whole.toValue ⟨q, m⟩ = Whole.toValue ⟨p, n⟩ ∧ InRange q m) : S.Yields ins v q (out >>= f) := by
  unfold Yields
  rw [meant_bind]
  refine Performance.Does.map hv fun ⟨_, n⟩ e _ he => ?_
  obtain ⟨hnone, hstack, rfl, hn⟩ := he
  obtain ⟨m, hm, hval, hrange⟩ := hf n hn
  exact ⟨⟨q, m⟩, by rw [hm]; rfl, hnone, hstack.trans (by rw [hval]), rfl, hrange⟩

/-- An instruction that leaves the outcome of an evaluation. -/
lemma of_puts {y : Recorded Value} (h : S.stage.Puts S.mode ins v y fun u => [u])
    (hy : y = Whole.toValue <$> meant out) (hc : ∀ c, out = .ok c → c.ty = p ∧ InRange p c.val) :
    S.Yields ins v p out := by
  subst hy
  exact (Performance.Does.of_fmap h).imp fun a e ha he =>
    ⟨he.1, he.2, hc a (eq_of_returns_meant ha)⟩

/-- An instruction that computes the outcome of an evaluation. -/
lemma emit {a : Action} {y : Machine.Exec Value} (ha : a.operandLength = some 0)
    (hplain : a.isPlain) (hc : ∀ c, out = .ok c → c.ty = p ∧ InRange p c.val)
    (hout : out ≠ .error .undefined)
    (hstep : ∀ inv i st s, Machine.perform inv i a (S.stage.session.frame (ins ++ st)) s =
    ((liftM y : Machine.Op Value) >>= Machine.push) (S.stage.session.frame st) s)
    (hy : y = outcome out) : S.Yields ins (Lowering.emit a) p out :=
  of_puts (.emit ha hplain fun inv i _ => .of_push (hstep inv i)) (hy ▸ of_outcome hout) hc

lemma of_pure (h : S.stage.Puts S.mode ins v (Pure.pure c.toValue) fun u => [u])
    (hc : c.ty = p ∧ InRange p c.val) : S.Yields ins v p (.ok c) :=
  of_puts h (map_pure _ c).symm fun _ h => Except.ok.inj h ▸ hc

end Yields

end Scene

/-! ### Runs -/

/-- A place in a run, apart from the state. -/
structure Place where
  locals : Array Value
  stack : List Value
  pc : Nat

variable {P : Performance} {x y z : Place} {k : Nat} {Q R : α → Prop} {Q' : β → Prop}
  {r : Machine.Exec Value}

def Place.config (x : Place) (P : Performance) (s : Machine.State) :
    Machine.Frame × Int × Machine.State :=
  (⟨P.session.routine, x.locals, x.stack⟩, x.pc, s)

/-- A run of the method is at a place. -/
def Visits (P : Performance) (x : Place) (s : Machine.State) : Prop :=
  Machine.Visited P.session.attr P.session.table (x.config P s)

/-- A run goes from one place to another, and leaves the state alone. -/
def Goes (P : Performance) (x y : Place) : Prop :=
  ∀ s, P.session.Comes true (x.config P s, []) (y.config P s, [])

/-- It does so in one step or more. -/
def Leaps (P : Performance) (x y : Place) : Prop :=
  ∀ s, P.session.Leaps true (x.config P s, []) (y.config P s, [])

/-- A run comes to an end. -/
def Ends (P : Performance) (x : Place) (r : Machine.Exec Value) : Prop :=
  ∀ s, Visits P x s → P.session.Ends (x.config P s) (r s)

/-- What a run from a place comes to: what is said of the result of an evaluation, or the exception
of a division. An evaluation that is out of `k` rounds says only that the machine takes as many
steps. -/
def Comes (P : Performance) (k : Nat) (x : Place) (Q : α → Prop) : Option (Except Abort α) → Prop
  | none => ∀ s, Visits P x s → P.session.Lasts k (x.config P s)
  | some (.error e) =>
    ∀ s, Visits P x s → e = .arithmetic ∧ P.session.Ends (x.config P s) (Machine.divisionByZero s)
  | some (.ok a) => Q a

namespace Goes

lemma refl (x : Place) : Goes P x x := fun _ => .refl _

variable (h : Goes P x y)

include h

lemma trans (h' : Goes P y z) : Goes P x z := fun s => (h s).trans (h' s)

lemma visits {s : Machine.State} (hx : Visits P x s) : Visits P y s :=
  Machine.Session.visited_of_treads (x := (x.config P s, [])) hx (h s hx)

lemma ends (h' : Ends P y r) : Ends P x r := fun s hx => (h' s (h.visits hx)).of_treads (h s hx)

/-- A run that comes to where another starts. -/
lemma comes {out : Option (Except Abort α)} (hc : Comes P k y Q out) (hQ : ∀ a, Q a → R a) :
    Comes P k x R out := by
  match out, hc with
  | none, hc => exact fun s hx => (hc s (h.visits hx)).of_treads (h s hx)
  | some (.error e), hc =>
    exact fun s hx => (hc s (h.visits hx)).imp_right fun he => he.of_treads (h s hx)
  | some (.ok a), hc => exact hQ a hc

end Goes

lemma Leaps.goes (h : Leaps P x y) : Goes P x y := fun s => (h s).comes

lemma Leaps.comes {out : Option (Except Abort α)} (h : Leaps P x y) (hc : Comes P k y Q out)
    (hQ : ∀ a, Q a → R a) : Comes P (k + 1) x R out := by
  match out, hc with
  | none, hc => exact fun s hx => (hc s (h.goes.visits hx)).of_leaps (h s hx)
  | some (.error e), hc =>
    exact fun s hx => (hc s (h.goes.visits hx)).imp_right fun he => he.of_treads (h.goes s hx)
  | some (.ok a), hc => exact hQ a hc

namespace Comes

lemma imp {out : Option (Except Abort α)} {j : Nat} (h : Comes P k x Q out) (hj : j ≤ k)
    (hQ : ∀ a, Q a → R a) : Comes P j x R out := by
  match out, h with
  | none, h => exact fun s hx n hn => h s hx n (hn.trans_le hj)
  | some (.error e), h => exact h
  | some (.ok a), h => exact hQ a h

lemma bind {out : Run α} {f : α → Run β} (h : Comes P k x Q out)
    (hf : ∀ a, Q a → Comes P k x Q' (f a)) : Comes P k x Q' (out >>= f : Run β) := by
  match out, h with
  | none, h => exact h
  | some (.error e), h => exact h
  | some (.ok a), h => exact hf a h

lemma of_meets {out : Eval α} {Q : Machine.State → α → List Invocation → Machine.State → Prop}
    (hh : P.session.attr.handlers = [])
    (h : ∀ s, P.session.Meets true (x.config P s, []) (Q s) (meant out [] s))
    (hR : ∀ a, out = .ok a → (∀ s, Q s a [] s) → R a) : Comes P k x R (some out) := by
  match out, h with
  | .ok a, h => exact hR a rfl h
  | .error .arithmetic, h =>
    intro s hx
    obtain ⟨id, s', hs⟩ := divisionByZero_apply s
    have h := h s
    simp only [meant, Recorded.of, hs] at h
    rw [hs]
    exact ⟨rfl, Machine.Session.Halts.ends (h hx) hh⟩
  | .error .undefined, h =>
    intro s hx
    obtain ⟨y, hrun, i, -, -, ht, -⟩ := h s hx
    cases (ht rfl).trans (Machine.Session.record_eq hrun)

end Comes

end Integral

end Classwright
