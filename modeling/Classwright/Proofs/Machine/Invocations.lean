import Classwright.Proofs.Machine.Runs

/-!
Runs and the calls they make.

A call that an instruction makes is known from the frame that it is executed in
(`Frame.invocation?`), and a run that is taken step by step has a record of its calls (`Takes`). A
computation with such a record (`Recorded`) says what a run should do: which calls it makes, one
after the other, and what comes of them. Calls are opaque to either side; what the call with a
number does is the answer that is given to it.
-/

namespace Classwright.Machine

/-! ### Calls -/

/-- A computation on the machine may be taken apart in a frame. -/
lemma lift_bind_bind {α β γ : Type} (x : Exec α) (k : α → Exec β) (h : β → Op γ) (f : Frame)
    (s : State) : ((liftM (x >>= k) : Op β) >>= h) f s =
    ((liftM x : Op α) >>= fun a => (liftM (k a) : Op β) >>= h) f s := by
  rw [lift_bind, lift_bind, bind_apply]
  rcases x s with ⟨_ | a, s'⟩
  · rfl
  · exact (lift_bind (k a) h f s').symm

/-- A call: how it is made, what it names, and its arguments, the receiver first. -/
structure Invocation where
  kind : CallKind
  member : MemberRef
  args : List Value

def invokeOn (inv : Invoke) (kind : CallKind) (ref : MemberRef) (recv : Value) (args : List Value) :
    Exec Value := do
  if recv.isNull then
    raise (α := Unit) "java/lang/NullPointerException"
      ("cannot invoke " ++ dotted ref.owner ++ "." ++ ref.name ++ " on null")
  inv (← dispatch kind recv ref) (recv :: args)

/-- What a call does, by what methods do when they are run. -/
def Invocation.run (inv : Invoke) (c : Invocation) : Exec Value :=
  match c.kind, c.args with
  | .static, args => do
    initClass inv c.member.owner
    inv (← findStatic c.member.owner c.member.name c.member.desc) args
  | kind, recv :: args => invokeOn inv kind c.member recv args
  | _, [] => crash

def CallKind.arity (kind : CallKind) (params : List String) : Nat :=
  if kind = .static then params.length else params.length + 1

/-- The call that an instruction makes in a frame, if it makes one. -/
def Frame.invocation? (f : Frame) (i : Insn) : Option Invocation := do
  let kind ← i.op.action?.bind callKind?
  let member ← (f.routine.pool.memberAt (poolIndex i.operand)).toOption
  let (params, _) ← (Descriptor.parse member.desc).toOption
  if kind.arity params ≤ f.stack.length then
    some ⟨kind, member, (f.stack.take (kind.arity params)).reverse⟩
  else none

lemma Frame.invocation?_eq_none {f : Frame} {i : Insn} {a : Action} (ha : i.op.action? = some a)
    (hkind : callKind? a = none) : f.invocation? i = none := by
  simp [Frame.invocation?, ha, hkind]

section

variable {inv : Invoke} {i : Insn} {r : Routine} {L : Array Value} {st vs : List Value} {s : State}
  {kind : CallKind} {ref : MemberRef} {params : List String} {ret desc : String} {a : Action}

lemma memberAt_apply {operand : Int} (h : r.pool.memberAt (poolIndex operand) = .ok ref) :
    memberAt operand ⟨r, L, st⟩ s = ((.ok ref, ⟨r, L, st⟩), s) := by
  show (liftM (pooled (r.pool.memberAt (poolIndex operand))) : Op MemberRef) ⟨r, L, st⟩ s = _
  rw [h]
  rfl

/-- The arguments are on the stack, the last one on top. -/
lemma popMany_apply (vs args st : List Value) :
    popMany vs.length args ⟨r, L, vs ++ st⟩ s = ((.ok (vs.reverse ++ args), ⟨r, L, st⟩), s) := by
  induction vs generalizing args with
  | nil => rfl
  | cons v vs ih =>
    have hpop : pop ⟨r, L, v :: vs ++ st⟩ s = ((.ok v, ⟨r, L, vs ++ st⟩), s) := rfl
    rw [List.length_cons, popMany, Op.bind_apply, hpop]
    simpa using ih (v :: args)

lemma popArgs_apply (h : Descriptor.parse desc = .ok (params, ret))
    (hlen : vs.length = params.length) :
    popArgs desc ⟨r, L, vs ++ st⟩ s = ((.ok vs.reverse, ⟨r, L, st⟩), s) := by
  unfold popArgs
  rw [h]
  dsimp only
  rw [← hlen, popMany_apply, List.append_nil]

variable (href : r.pool.memberAt (poolIndex i.operand) = .ok ref)
  (hparse : Descriptor.parse ref.desc = .ok (params, ret)) (hlen : vs.length = kind.arity params)

include href hparse hlen

/-- The arguments of a call are on the stack, the last one on top. -/
lemma Frame.invocation?_eq_some (ha : i.op.action? = some a) (hkind : callKind? a = some kind) :
    Frame.invocation? ⟨r, L, vs ++ st⟩ i = some ⟨kind, ref, vs.reverse⟩ := by
  simp [Frame.invocation?, ha, hkind, href, hparse, Except.toOption, ← hlen]

/-- The arguments are taken from the stack, and the result is put there. -/
lemma call_eq (hret : returnsValue ref.desc) : call inv kind i.operand ⟨r, L, vs ++ st⟩ s =
    ((liftM ((Invocation.mk kind ref vs.reverse).run inv) : Op Value) >>= push) ⟨r, L, st⟩ s := by
  unfold call
  rw [Op.bind_apply, memberAt_apply href]
  dsimp only
  by_cases hstatic : kind = .static
  · subst hstatic
    rw [Op.bind_apply, popArgs_apply hparse hlen]
    simp only [if_true, hret, Invocation.run]
    rw [lift_bind_bind, lift_bind, lift_bind]
    rcases initClass inv ref.owner s with ⟨_ | _, s'⟩
    · rfl
    · exact (lift_bind_bind (findStatic ref.owner ref.name ref.desc) (fun m => inv m vs.reverse)
        push _ s').symm
  · -- The receiver is below the arguments.
    rw [CallKind.arity, if_neg hstatic] at hlen
    obtain rfl | ⟨ws, recv, rfl⟩ := List.eq_nil_or_concat' vs
    · cases hlen
    have hpop : pop ⟨r, L, recv :: st⟩ s = ((.ok recv, ⟨r, L, st⟩), s) := rfl
    have hrun : (Invocation.mk kind ref (ws ++ [recv]).reverse).run inv =
        invokeOn inv kind ref recv ws.reverse := by
      cases kind <;> simp [Invocation.run] at hstatic ⊢
    rw [Op.bind_apply, List.append_assoc, popArgs_apply hparse (by simpa using hlen), hrun]
    simp only [hstatic, if_false, List.singleton_append, hret, if_true, invokeOn]
    rw [Op.bind_apply, hpop]
    dsimp only
    have hinvoke (s : State) :=
      (lift_bind_bind (dispatch kind recv ref) (fun m => inv m (recv :: ws.reverse)) push
      ⟨r, L, st⟩ s).symm
    split
    · rw [lift_bind_bind, lift_bind, lift_bind]
      split
      · exact hinvoke _
      · rfl
    · exact hinvoke s

lemma step_invocation (ha : i.op.action? = some a) (hkind : callKind? a = some kind)
    (hret : returnsValue ref.desc) :
    step inv i ⟨r, L, vs ++ st⟩ s = match (Invocation.mk kind ref vs.reverse).run inv s with
      | (.ok w, s') => ((.ok (.goto i.next), ⟨r, L, w :: st⟩), s')
      | (.error e, s') => ((.error e, ⟨r, L, st⟩), s') := by
  have hperform : perform inv i a = call inv kind i.operand := by
    cases a <;> cases hkind <;> rfl
  have hplain : a.endsBlock = false ∧ a.isBranch = false := by
    cases a <;> cases hkind <;> exact ⟨rfl, rfl⟩
  rw [step_eq ha hplain.1 hplain.2, hperform, Op.bind_apply, call_eq href hparse hlen hret,
    lift_bind]
  rcases (Invocation.mk kind ref vs.reverse).run inv s with ⟨_ | w, s'⟩ <;> rfl

end

/-! ### Records -/

/-- Computations on the machine that keep a record of calls. -/
abbrev Recorded := ExceptT Stop (StateT (List Invocation) (StateM State))

namespace Recorded

variable {α β : Type}

/-- A computation that makes no calls. -/
def of (x : Exec α) : Recorded α := fun t s =>
  let (r, s) := x s
  ((r, t), s)

/-- A call is made, and is answered by its number. -/
def call (answers : Nat → Invoke) (c : Invocation) : Recorded Value := fun t s =>
  let (r, s) := c.run (answers t.length) s
  ((r, t ++ [c]), s)

/-- The second of two conditions is evaluated if the first is as given, and decides. -/
def both (x : Recorded Bool) (all : Bool) (y : Recorded Bool) : Recorded Bool := do
  if (← x) = all then y else return !all

/-- A result that a computation may have. -/
def Returns (x : Recorded α) (a : α) : Prop := ∃ t s t' s', x t s = ((.ok a, t'), s')

lemma returns_pure {a b : α} (h : Returns (pure a) b) : b = a := by
  obtain ⟨t, s, t', s', h⟩ := h
  cases h
  rfl

lemma returns_bind {x : Recorded α} {k : α → Recorded β} {b : β} (h : Returns (x >>= k) b) :
    ∃ a, Returns x a ∧ Returns (k a) b := by
  obtain ⟨t, s, t', s', h⟩ := h
  rw [Op.bind_apply] at h
  cases hx : x t s with
  | mk r s₁ =>
    obtain ⟨_ | a, t₁⟩ := r
    · rw [hx] at h
      cases h
    · rw [hx] at h
      exact ⟨a, ⟨t, s, t₁, s₁, hx⟩, t₁, s₁, t', s', h⟩

@[simp]
lemma of_pure (a : α) : of (pure a) = pure a := rfl

lemma of_bind (x : Exec α) (k : α → Exec β) : of (x >>= k) = of x >>= fun a => of (k a) := by
  funext t s
  rw [Op.bind_apply]
  unfold of
  rw [bind_apply]
  rcases x s with ⟨_ | a, s'⟩ <;> rfl

end Recorded

/-- Control goes from one place to another, and what is called is put on record. -/
def Takes (answers : Nat → Invoke) (table : Array (Option Insn))
    (x y : (Frame × Int × State) × List Invocation) : Prop :=
  ∃ i, insnAt? table x.1.2.1 = some i ∧
    step (answers x.2.length) i x.1.1 x.1.2.2 = ((.ok (.goto y.1.2.1), y.1.1), y.1.2.2) ∧
    y.2 = x.2 ++ (x.1.1.invocation? i).toList

/-- Control comes to an instruction that does not end. What it calls is put on record, too. -/
def Stops (answers : Nat → Invoke) (table : Array (Option Insn))
    (x : (Frame × Int × State) × List Invocation) (e : Stop) (t : List Invocation) (s : State) :
    Prop :=
  ∃ y i g, Relation.ReflTransGen (Takes answers table) x y ∧ insnAt? table y.1.2.1 = some i ∧
    step (answers y.2.length) i y.1.1 y.1.2.2 = ((.error e, g), s) ∧
      t = y.2 ++ (y.1.1.invocation? i).toList

/-! ### Sessions -/

/-- A method that is run with the values of its variables. Each call has fuel of its own. -/
structure Session where
  attr : CodeAttribute
  table : Array (Option Insn)
  routine : Routine
  locals : Array Value
  fuel : Nat → Nat
  depth : Nat

namespace Session

variable {α β : Type} (S : Session)

def frame (st : List Value) : Frame := ⟨S.routine, S.locals, st⟩

/-- What the call with a number does. -/
def answers (n : Nat) : Invoke := invoke (S.fuel n) S.depth

/-- A run that comes to an offset with a stack does what a computation says: it makes the same
calls, and then comes to the offset and has the stack that the result stands for; or it stops as the
computation does. -/
def Does (p : Nat) (st : List Value) (x : Recorded α) (goal : α → Option Nat × List Value) : Prop :=
  ∀ t s, Visited S.attr S.table (S.frame st, p, s) →
    match x t s with
    | ((.ok a, t'), s') => ∃ q : Nat, (goal a).1 = some q ∧
        Relation.ReflTransGen (Takes S.answers S.table) ((S.frame st, p, s), t)
          ((S.frame (goal a).2, q, s'), t')
    | ((.error e, t'), s') => Stops S.answers S.table ((S.frame st, p, s), t) e t' s'

/-! ### What a run comes to -/

/-- The instruction at a place has an outcome, and what it calls is put on record. Calls are
answered as in the session; if they are free, the outcome is the same for any answers, and none is
made. -/
def Acts (free : Bool) (x : (Frame × Int × State) × List Invocation) (t : List Invocation)
    (Q : (Except Stop Next × Frame) × State → Prop) : Prop :=
  ∃ i, insnAt? S.table x.1.2.1 = some i ∧ t = x.2 ++ (x.1.1.invocation? i).toList ∧
    (free → t = x.2) ∧
    ∀ inv, free ∨ inv = S.answers x.2.length → Q (step inv i x.1.1 x.1.2.2)

/-- Control goes from one place to another. -/
def Treads (free : Bool) (x y : (Frame × Int × State) × List Invocation) : Prop :=
  S.Acts free x y.2 fun r => r = ((.ok (.goto y.1.2.1), y.1.1), y.1.2.2)

/-- Control comes to an instruction that does not end. -/
def Halts (free : Bool) (x : (Frame × Int × State) × List Invocation) (e : Stop)
    (t : List Invocation) (s : State) : Prop :=
  ∃ y, Relation.ReflTransGen (S.Treads free) x y ∧ S.Acts free y t fun r =>
    ∃ g, r = ((.error e, g), s)

/-- A run that is at the one place comes to the other. -/
def Comes (free : Bool) (x y : (Frame × Int × State) × List Invocation) : Prop :=
  Visited S.attr S.table x.1 → Relation.ReflTransGen (S.Treads free) x y

/-- A run that is at the one place comes to the other in one step or more. -/
def Leaps (free : Bool) (x y : (Frame × Int × State) × List Invocation) : Prop :=
  Visited S.attr S.table x.1 → Relation.TransGen (S.Treads free) x y

/-- What a run comes to by the outcome of a computation: it stops as the computation does, or
something is so of the result. -/
def Meets (free : Bool) (x : (Frame × Int × State) × List Invocation) (Q : α → List Invocation →
    State → Prop) : (Except Stop α × List Invocation) × State → Prop
  | ((.ok a, t), s) => Q a t s
  | ((.error e, t), s) => Visited S.attr S.table x.1 → S.Halts free x e t s

variable {S} {free : Bool} {x y z : (Frame × Int × State) × List Invocation} {p q : Nat}
  {st : List Value} {t : List Invocation} {s : State} {i : Insn}

lemma treads_false : S.Treads false = Takes S.answers S.table := by
  ext x y
  constructor
  · rintro ⟨i, hi, ht, -, hstep⟩
    exact ⟨i, hi, hstep _ (.inr rfl), ht⟩
  · rintro ⟨i, hi, hstep, ht⟩
    exact ⟨i, hi, ht, nofun, fun inv hinv => by simpa [hinv.resolve_left nofun] using hstep⟩

lemma halts_false {e : Stop} : S.Halts false x e t s ↔ Stops S.answers S.table x e t s := by
  unfold Halts
  rw [treads_false]
  constructor
  · rintro ⟨y, hrun, i, hi, ht, -, hstep⟩
    obtain ⟨g, hstep⟩ := hstep _ (.inr rfl)
    exact ⟨y, i, g, hrun, hi, hstep, ht⟩
  · rintro ⟨y, i, g, hrun, hi, hstep, ht⟩
    exact ⟨y, hrun, i, hi, ht, nofun, fun inv hinv =>
      ⟨g, by simpa [hinv.resolve_left nofun] using hstep⟩⟩

/-- Where control goes is a part of a run. -/
lemma visited_of_treads (hx : Visited S.attr S.table x.1)
    (h : Relation.ReflTransGen (S.Treads free) x y) : Visited S.attr S.table y.1 := by
  induction h with
  | refl => exact hx
  | @tail y z _ htreads ih =>
    obtain ⟨i, hi, -, -, hstep⟩ := htreads
    obtain ⟨f₀, s₀, hrun⟩ := ih
    refine ⟨f₀, s₀, hrun.tail ⟨S.fuel y.2.length, S.depth, ?_⟩⟩
    have hstep : step (invoke (S.fuel y.2.length) S.depth) i y.1.1 y.1.2.2 = _ := hstep _ (.inr rfl)
    rw [round, hi]
    dsimp only
    rw [hstep]

/-- Where calls are free, none is put on record. -/
lemma record_eq (h : Relation.ReflTransGen (S.Treads true) x y) : y.2 = x.2 := by
  induction h with
  | refl => rfl
  | tail _ htreads ih =>
    obtain ⟨i, -, -, ht, -⟩ := htreads
    exact (ht rfl).trans ih

namespace Comes

lemma refl (x : (Frame × Int × State) × List Invocation) : S.Comes free x x := fun _ => .refl

lemma trans (h : S.Comes free x y) (h' : S.Comes free y z) : S.Comes free x z := fun hx =>
  (h hx).trans (h' (visited_of_treads hx (h hx)))

lemma leaps (h : S.Comes free x y) (h' : S.Leaps free y z) : S.Leaps free x z := fun hx =>
  .trans_right (h hx) (h' (visited_of_treads hx (h hx)))

end Comes

lemma Leaps.comes (h : S.Leaps free x y) : S.Comes free x y := fun hx => (h hx).to_reflTransGen

namespace Meets

variable {Q : α → List Invocation → State → Prop} {R : β → List Invocation → State → Prop}

lemma bind {m : Recorded α} {k : α → Recorded β} (h : S.Meets free x Q (m t s))
    (hk : ∀ a t' s', m t s = ((.ok a, t'), s') → Q a t' s' → S.Meets free x R (k a t' s')) :
    S.Meets free x R ((m >>= k) t s) := by
  rw [Op.bind_apply]
  generalize hm : m t s = r at h
  obtain ⟨⟨e | a, t'⟩, s'⟩ := r
  · exact h
  · exact hk a t' s' hm h

lemma imp {Q' : α → List Invocation → State → Prop} {r : (Except Stop α × List Invocation) × State}
    (h : S.Meets free x Q r) (hQ : ∀ a t s, Q a t s → Q' a t s) : S.Meets free x Q' r := by
  obtain ⟨⟨e | a, t⟩, s⟩ := r
  · exact h
  · exact hQ a t s h

/-- What a run comes to by way of another place. -/
lemma of_comes {r : (Except Stop α × List Invocation) × State} (h : S.Meets free y Q r)
    (hxy : S.Comes free x y) : S.Meets free x Q r := by
  obtain ⟨⟨e | a, t⟩, s⟩ := r
  · intro hx
    obtain ⟨z, hrun, hacts⟩ := h (visited_of_treads hx (hxy hx))
    exact ⟨z, (hxy hx).trans hrun, hacts⟩
  · exact h

end Meets

/-! ### Instructions -/

/-- An instruction does what a computation says: it goes to the offset and leaves the stack that the
result stands for, or it stops. -/
def Steps (S : Session) (inv : Invoke) (i : Insn) (st : List Value) (x : Exec α)
    (g : α → Nat × List Value) : Prop :=
  ∀ s, match x s with
    | (.ok a, s') => step inv i (S.frame st) s = ((.ok (.goto (g a).1), S.frame (g a).2), s')
    | (.error e, s') => ∃ f, step inv i (S.frame st) s = ((.error e, f), s')

namespace Meets

variable {g : α → Nat × List Value} {a : Action}

lemma of_steps {m : Recorded α} {y : Invoke → Exec α} {calls : List Invocation}
    (hi : Fetches S.attr S.table p i)
    (hm : m t s = (((y (S.answers t.length) s).1, t ++ calls), (y (S.answers t.length) s).2))
    (hcalls : ((S.frame st).invocation? i).toList = calls)
    (hfree : free → calls = [] ∧ ∀ inv inv', y inv = y inv')
    (h : ∀ inv, S.Steps inv i st (y inv) g) :
    S.Meets free ((S.frame st, p, s), t)
    (fun a t' s' => S.Leaps free ((S.frame st, p, s), t) ((S.frame (g a).2, (g a).1, s'), t'))
    (m t s) := by
  have hacts (hv : Visited S.attr S.table (S.frame st, p, s))
      {Q : (Except Stop Next × Frame) × State → Prop}
      (hQ : ∀ inv, y inv s = y (S.answers t.length) s → Q (step inv i (S.frame st) s)) :
      S.Acts free ((S.frame st, p, s), t) (t ++ calls) Q := by
    refine ⟨i, hi _ _ hv, by rw [hcalls], fun hf => by simp [(hfree hf).1],
      fun inv hinv => hQ inv ?_⟩
    rcases hinv with hf | rfl
    · rw [(hfree hf).2 inv (S.answers t.length)]
    · rfl
  rw [hm]
  generalize hr : y (S.answers t.length) s = r at hacts ⊢
  obtain ⟨e | a, s'⟩ := r
  · refine fun hv => ⟨_, .refl, hacts hv fun inv hinv => ?_⟩
    have hstep := h inv s
    rwa [hinv] at hstep
  · refine fun hv => .single (hacts hv fun inv hinv => ?_)
    have hstep := h inv s
    rwa [hinv] at hstep

lemma of_step {y : Exec α} (hi : Fetches S.attr S.table p i) (ha : i.op.action? = some a)
    (hkind : callKind? a = none) (h : ∀ inv, S.Steps inv i st y g) :
    S.Meets free ((S.frame st, p, s), t)
    (fun a t' s' => S.Leaps free ((S.frame st, p, s), t) ((S.frame (g a).2, (g a).1, s'), t'))
    (Recorded.of y t s) := by
  refine of_steps (y := fun _ => y) hi ?_ ?_ (fun _ => ⟨rfl, fun _ _ => rfl⟩) h
  · rw [List.append_nil]
    rfl
  · rw [Frame.invocation?_eq_none ha hkind, Option.toList_none]

/-- An instruction that calls a method with a value. The arguments are on the stack, the last one on
top. -/
lemma of_invocation {kind : CallKind} {ref : MemberRef} {params : List String} {ret : String}
    {vs : List Value} (hi : Fetches S.attr S.table p i) (ha : i.op.action? = some a)
    (hkind : callKind? a = some kind)
    (href : S.routine.pool.memberAt (poolIndex i.operand) = .ok ref)
    (hparse : Descriptor.parse ref.desc = .ok (params, ret)) (hlen : vs.length = kind.arity params)
    (hret : returnsValue ref.desc) (hnext : i.next = q) :
    S.Meets false ((S.frame (vs ++ st), p, s), t)
    (fun w t' s' => S.Leaps false ((S.frame (vs ++ st), p, s), t) ((S.frame (w :: st), q, s'), t'))
    (Recorded.call S.answers ⟨kind, ref, vs.reverse⟩ t s) := by
  refine of_steps (y := fun inv => (Invocation.mk kind ref vs.reverse).run inv)
    (g := fun w => (q, w :: st)) hi rfl ?_ nofun fun inv s => ?_
  · rw [frame, Frame.invocation?_eq_some href hparse hlen ha hkind, Option.toList_some]
  · have hstep : step inv i (S.frame (vs ++ st)) s = _ :=
      step_invocation href hparse hlen ha hkind hret
    generalize (Invocation.mk kind ref vs.reverse).run inv s = r at hstep ⊢
    obtain ⟨e | w, s'⟩ := r
    · exact ⟨_, hstep⟩
    · exact hnext ▸ hstep

end Meets

end Session

end Classwright.Machine
