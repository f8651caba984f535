import Classwright.Proofs.Integral.Operators

/-!
Integral statements.

The code of a statement does what its evaluation does (`Structured.executes`): it goes on to what
follows with the variables of the new store in their slots, returns, or ends with an exception.
Where an evaluation runs out of rounds the machine takes at least as many steps, so that a loop
without an end has none in the machine either.
-/

namespace Classwright.Integral

open List
open Lowering
open Machine (Value)

/-! ### Assignments -/

section

variable {L : Array Value} {v : Local} {b : Binding} {vs : List Local} {bs : List Binding} {i : Nat}
  {w : Value} {name : String} {q : Prim} {n : Int}

lemma Bound.set_ne (h : Bound L v b) (hi : v.slot ≠ i) : Bound (L.setIfInBounds i w) v b :=
  ⟨h.name, h.type, h.whole, h.range, by rw [Array.getElem?_setIfInBounds_ne hi.symm, h.slot]⟩

/-- A slot that no variable has. -/
lemma forall_bound_set (h : Forall₂ (Bound L) vs bs) (hi : ∀ v ∈ vs, v.slot ≠ i) :
    Forall₂ (Bound (L.setIfInBounds i w)) vs bs := by
  induction h with
  | nil => exact .nil
  | cons hb _ ih =>
    exact .cons (hb.set_ne (hi _ mem_cons_self)) (ih fun v hv => hi v (mem_cons_of_mem _ hv))

lemma Bound.set_self (h : Bound L v b) (hn : InRange b.value.ty n) (hlt : v.slot < L.size) :
    Bound (L.setIfInBounds v.slot (Whole.toValue ⟨b.value.ty, n⟩)) v { b with value.val := n } :=
  ⟨h.name, h.type, h.whole, hn, Array.getElem?_setIfInBounds_self_of_lt hlt⟩

/-- The innermost variable of a name is given a value. -/
lemma forall_bound_rebind (h : Forall₂ (Bound L) vs bs)
    (hslots : vs.Pairwise fun v w => w.slot < v.slot) (hv : vs.find? (·.name == name) = some v)
    (hty : v.ty.erase = .prim q) (hn : InRange q n) (hlt : v.slot < L.size) :
    Forall₂ (Bound (L.setIfInBounds v.slot (Whole.toValue ⟨q, n⟩))) vs (rebind name n bs) := by
  induction h with
  | nil => cases hv
  | @cons v' b' vs bs hb hrest ih =>
    obtain ⟨hbelow, hslots⟩ := pairwise_cons.1 hslots
    rw [find?_cons] at hv
    rw [rebind]
    by_cases hname : v'.name = name
    · rw [beq_iff_eq.2 hname] at hv
      obtain rfl := Option.some.inj hv
      obtain rfl := Erased.prim.inj (hb.type.symm.trans hty)
      rw [if_pos (hb.name ▸ hname)]
      exact .cons (hb.set_self hn hlt) (forall_bound_set hrest fun w hw => (hbelow w hw).ne)
    · rw [beq_eq_false_iff_ne.2 hname] at hv
      rw [if_neg (hb.name ▸ hname)]
      exact .cons (hb.set_ne (hbelow v (mem_of_find?_eq_some hv)).ne') (ih hslots hv)

lemma exists_bound (h : Forall₂ (Bound L) vs bs) (hv : v ∈ vs) : ∃ b, Bound L v b := by
  induction h with
  | nil => cases hv
  | @cons v' b _ _ hb _ ih =>
    rcases mem_cons.1 hv with rfl | hv
    · exact ⟨b, hb⟩
    · exact ih hv

variable {env : Env} {σ σ' : State} {ρ : Store} {top : Nat}

lemma Agrees.of_declares (h : Agrees env σ.scopes ρ L) (hd : Declares [] σ σ') :
    Agrees env σ'.scopes ρ L := by
  rw [hd.rest]
  exact h

lemma Agrees.assignParam (h : Agrees env σ.scopes ρ L)
    (hs : Stacked 0 top (visible σ ++ env.params)) (hv : env.params.find? (·.name == name) = some v)
    (hty : v.ty.erase = .prim q) (hn : InRange q n) (hlt : v.slot < L.size) :
    Agrees env σ.scopes { ρ with params := rebind name n ρ.params }
    (L.setIfInBounds v.slot (Whole.toValue ⟨q, n⟩)) := by
  obtain ⟨-, hparams, hbelow⟩ := pairwise_append.1 hs.pairwise
  have hmem := mem_of_find?_eq_some hv
  exact ⟨forall_bound_set h.locals fun w hw => (hbelow w hw v hmem).ne',
    forall_bound_rebind h.params hparams hv hty hn hlt⟩

/-- An assignment to a variable or, if there is none of that name, to a parameter. -/
lemma Agrees.assign (h : Agrees env σ.scopes ρ L) (hs : Stacked 0 top (visible σ ++ env.params))
    (hv : some v = ((visible σ).find? (·.name == name)).or (env.params.find? (·.name == name)))
    (hty : v.ty.erase = .prim q) (hn : InRange q n) (hlt : v.slot < L.size) :
    Agrees env σ.scopes (ρ.assign name n) (L.setIfInBounds v.slot (Whole.toValue ⟨q, n⟩)) := by
  have hlocals : List.Forall₂ (Bound L) (visible σ) _ := h.locals
  have hfind := Scene.find_bound hlocals name
  cases hl : (visible σ).find? (·.name == name) with
  | some v' =>
    rw [hl] at hfind
    obtain ⟨b, -, hb⟩ := hfind
    obtain rfl : v = v' := by simpa [hl] using hv
    obtain ⟨hlocals, -, hbelow⟩ := pairwise_append.1 hs.pairwise
    have hmem := mem_of_find?_eq_some hl
    rw [Store.assign, hb, Option.isSome_some, if_pos rfl]
    exact ⟨forall_bound_rebind h.locals hlocals hl hty hn hlt,
      forall_bound_set h.params fun w hw => (hbelow v hmem w hw).ne⟩
  | none =>
    rw [hl] at hfind
    rw [hl, Option.none_or] at hv
    rw [Store.assign, hfind, Option.isSome_none, if_neg Bool.false_ne_true]
    exact h.assignParam hs hv.symm hty hn hlt

/-- A variable that is bound above all others. -/
lemma Agrees.define (h : Agrees env σ.scopes ρ L) (hs : Stacked 0 σ.next (visible σ ++ env.params))
    (hd : Declares [v] σ σ') (hsc : σ.scopes ≠ []) (hslot : v.slot = σ.next)
    (hty : v.ty.erase = .prim q) (hq : isWhole q) (hn : InRange q n) (hlt : v.slot < L.size) :
    Agrees env σ'.scopes { ρ with locals := ⟨v.name, q, n⟩ :: ρ.locals }
    (L.setIfInBounds v.slot (Whole.toValue ⟨q, n⟩)) := by
  have hbelow {w : Local} (hw : w ∈ visible σ ++ env.params) : w.slot ≠ v.slot :=
    hslot ▸ (hs.slot_lt hw).ne
  refine ⟨?_, forall_bound_set h.params fun w hw => hbelow (mem_append_right _ hw)⟩
  show Forall₂ _ (visible σ') _
  rw [hd.visible_eq hsc]
  exact .cons ⟨rfl, hty, hq, hn, Array.getElem?_setIfInBounds_self_of_lt hlt⟩
    (forall_bound_set h.locals fun w hw => hbelow (mem_append_left _ hw))

end

/-! ### Runs -/

namespace Scene

/-- What the machine gives back for the result of a method. -/
def given (ty : Ty) : Option Int → Value
  | some n => Whole.toValue ⟨ty.unboxed, n⟩
  | none => .null

/-- The results of a method: none if it is `void`, or else an integer of its type. -/
def Answers (ty : Ty) : Option Int → Prop
  | some n => InRange ty.unboxed n
  | none => ty.isVoid

end Scene

/-- A method without handlers, of which a run has a slot for each variable. -/
structure Complete (P : Performance) : Prop where
  staged : P.Staged
  unguarded : P.session.attr.handlers = []
  locals : P.lowered.maxLocals ≤ P.session.attr.maxLocals.toNat

variable {P : Performance} {k : Nat} {σ τ σ' : State} {x y : Place} {ρ : Store} {L : Array Value}
  {u : Unit} {e : Expr} {p q : Prim} {out : Run Flow} {ty : Ty} {g : Whole → Run Flow} {l : Label}

/-- How a statement is left, from a place on: control comes to the end of `σ'` with a store in the
slots and nothing on the stack, or the method returns. -/
def Left (P : Performance) (σ' : State) (x : Place) : Flow → Prop
  | .returned v => Scene.Answers P.env.method.returns v ∧
      Ends P x fun s => (.ok (Scene.given P.env.method.returns v), s)
  | .next ρ => σ'.code.reachable ∧
      ∃ L, L.size = x.locals.size ∧ Agrees P.env σ'.scopes ρ L ∧ Goes P x ⟨L, [], σ'.code.size⟩

/-- A run from a place does what an evaluation of statements does. -/
def Proceeds (P : Performance) (k : Nat) (σ' : State) (x : Place) (out : Run Flow) : Prop :=
  Comes P k x (Left P σ' x) out

/-- The code between two states does so, over every store. -/
def Follows (P : Performance) (k : Nat) (σ σ' : State) (f : Store → Run Flow) : Prop :=
  Complete P → Stays σ' P.lowered → σ.code.reachable →
    ∀ ρ L, L.size = P.session.attr.maxLocals.toNat + 1 →
    Agrees P.env σ.scopes ρ L → Proceeds P k σ' ⟨L, [], σ.code.size⟩ (f ρ)

/-- The code of a computation does what an evaluation of statements does; it binds variables in its
own scope. -/
def Executes (P : Performance) (k : Nat) (x : Lower Unit) (f : Store → Run Flow) : Prop :=
  ∀ ⦃σ u σ'⦄, Sited P.env σ → Ready σ → x P.env σ = .ok (u, σ') → (∃ vs, Declares vs σ σ') ∧
    Follows P k σ σ' f

lemma Left.of_goes {flow : Flow} (hf : Left P σ' y flow) (h : Goes P x y)
    (hsize : y.locals.size = x.locals.size) : Left P σ' x flow := by
  cases flow with
  | returned v => exact ⟨hf.1, h.ends hf.2⟩
  | next ρ =>
    obtain ⟨hr, L, hL, hag, hgo⟩ := hf
    exact ⟨hr, L, hL.trans hsize, hag, h.trans hgo⟩

/-- A run leaves the code between two states, with the stack as it was: at its end or by a branch to
a label. -/
def Leaves (P : Performance) (σ σ' : State) (x : Place) : Option Label → Prop
  | none => (σ.code.reachable → σ'.code.reachable) ∧ Goes P x { x with pc := σ'.code.size }
  | some l =>
    σ'.code.Referred l ∧ ∃ t, P.lowered.code.position? l = some t ∧ Leaps P x { x with pc := t }

namespace Proceeds

/-- A run that comes to where another starts. -/
lemma of_goes (hp : Proceeds P k σ' y out) (h : Goes P x y)
    (hsize : y.locals.size = x.locals.size) : Proceeds P k σ' x out :=
  h.comes hp fun _ hf => hf.of_goes h hsize

/-- What follows a statement. -/
lemma andThen {f : Store → Run Flow} (hp : Proceeds P k τ x out)
    (hf : ∀ ρ L, L.size = x.locals.size → Agrees P.env τ.scopes ρ L → τ.code.reachable →
      Proceeds P k σ' ⟨L, [], τ.code.size⟩ (f ρ)) : Proceeds P k σ' x (andThen out f) := by
  refine Comes.bind hp fun flow hflow => ?_
  cases flow with
  | returned v => exact hflow
  | next ρ =>
    obtain ⟨hr, L, hL, hag, hgo⟩ := hflow
    exact (hf ρ L hL hag hr).of_goes hgo hL

lemma andThen_next (out : Run Flow) : Integral.andThen out (fun ρ => return .next ρ) = out := by
  match out with
  | none => rfl
  | some (.error _) => rfl
  | some (.ok (.next _)) => rfl
  | some (.ok (.returned _)) => rfl

/-- Code that is emitted behind, at the same place. -/
lemma finish (hp : Proceeds P k τ x out) (he : Emits τ σ') (hsize : σ'.code.size = τ.code.size)
    (hreach : τ.code.reachable → σ'.code.reachable) : Proceeds P k σ' x out := by
  rw [← andThen_next out]
  exact hp.andThen fun ρ L _ hag hr =>
    ⟨hreach hr, L, rfl, hag.of_declares he.declares, hsize ▸ .refl _⟩

/-- A branch on an expression, to a label that is at `t`. A round of a loop begins with a branch
that is taken, so that the count of steps goes up there. -/
lemma branch {want : Bool} {t j : Nat} (hc : Comes P k ⟨L, [], σ.code.size⟩
      (fun w => Leaves P σ τ ⟨L, [], σ.code.size⟩ (if w.isTrue = want then some l else none))
      (value ρ e)) (ht : P.lowered.code.position? l = some t) (hj : k ≤ j + 1)
    (hfall : ∀ w, w.isTrue ≠ want → (σ.code.reachable → τ.code.reachable) →
      Proceeds P k σ' ⟨L, [], τ.code.size⟩ (g w))
    (htaken : ∀ w, w.isTrue = want → τ.code.Referred l → Proceeds P j σ' ⟨L, [], t⟩ (g w)) :
    Proceeds P k σ' ⟨L, [], σ.code.size⟩ (value ρ e >>= g : Run Flow) := by
  refine hc.bind fun w hleaves => ?_
  split_ifs at hleaves with hw
  · obtain ⟨href, t', ht', hgo⟩ := hleaves
    obtain rfl := Option.some.inj (ht.symm.trans ht')
    exact Comes.imp (hgo.comes (htaken w hw href) fun _ hf => hf.of_goes hgo.goes rfl) hj
      fun _ => id
  · exact (hfall w hw hleaves.1).of_goes hleaves.2 rfl

end Proceeds

/-! ### Instructions -/

section

variable (hP : Complete P) (hr : Ready σ) (hstays : Stays σ' P.lowered)

include hP hr hstays

lemma leaps_store {v : Local} {w : Value} (h : Lowering.store v P.env σ = .ok (u, σ'))
    (hlt : v.slot < L.size) :
    Leaps P ⟨L, [w], σ.code.size⟩ ⟨L.setIfInBounds v.slot w, [], σ'.code.size⟩ := by
  have hx : Single (Lowering.store v) _ := .onLocal _ _
  obtain ⟨d, hd, rfl⟩ := hx.emission h
  obtain ⟨i, hi, hy, hnext⟩ := hP.staged.fetches hr hx.fits (by simp [hx.labels]) hd hstays.code
  obtain ⟨a, ha, hplain, hperform⟩ := Emission.performs_store _ _ _ _ hy
  obtain ⟨hkind, hend, hbranch⟩ := Action.isPlain_iff.1 hplain
  refine fun s hv => .single ⟨i, hi _ _ hv, ?_, fun _ => rfl, fun inv _ => ?_⟩
  · rw [Machine.Frame.invocation?_eq_none ha hkind]
    rfl
  · show Machine.step inv i ⟨P.session.routine, L, [w]⟩ s = _
    rw [Machine.step_of_perform ha hend hbranch
      ((congrFun₂ (hperform inv) _ s).trans (Machine.pop_store_apply hlt)), hnext]
    rfl

/-- An instruction that returns. -/
lemma ends_emit {a : Action} {w : Value} {st : List Value} (ha : a.operandLength = some 0)
    (h : emit a P.env σ = .ok (u, σ')) (hstep : ∀ inv i s, i.op.action? = some a →
      ∃ f, Machine.step inv i ⟨P.session.routine, L, st⟩ s = ((.ok (.done w), f), s)) :
    Ends P ⟨L, st, σ.code.size⟩ fun s => (.ok w, s) := by
  have hx : Single (emit a) _ := .emit ha
  obtain ⟨d, hd, rfl⟩ := hx.emission h
  obtain ⟨i, hi, hy, -⟩ := hP.staged.fetches hr hx.fits (by simp [hx.labels]) hd hstays.code
  have hop : i.op.action? = some a := Insn.action?_of_op (by rw [hy])
  refine fun s hv => Machine.Session.Ends.of_succ (m := 0) (x := (_, [])) fun n _ => ?_
  obtain ⟨f, hstep⟩ := hstep (Machine.invoke n P.session.depth) i s hop
  simp only [Machine.Session.run, Machine.loop, Machine.round, hi _ _ hv, hstep]

end

lemma standing (hs : Sited P.env σ) (hr : Ready σ) : Standing σ.scopes σ :=
  ⟨rfl, by simp [State.stops, hs.plain], fun _ => hr⟩

/-- A jump to a label that is at `t`. -/
lemma goes_goto {t : Nat} (hP : Complete P) (hs : Sited P.env σ) (hr : Ready σ)
    (hl : l.id < σ.code.labels.size) (h : branch .goto l P.env σ = .ok (u, σ'))
    (hstays : Stays σ' P.lowered) (ht : P.lowered.code.position? l = some t) :
    Goes P ⟨L, [], σ.code.size⟩ ⟨L, [], t⟩ := by
  intro s
  have hgoto := Performance.does_goto (P := P.having σ.scopes L) (M := ⟨true, True⟩) (l := l) () []
    (standing hs hr) (by simpa using hl) h
  obtain ⟨_, ⟨-, rfl⟩, -, q, hq, hleaps⟩ := hgoto.2 (hP.staged.having _ _) trivial hstays [] [] s
  obtain rfl := Option.some.inj (ht.symm.trans hq)
  exact hleaps.comes

/-! ### Expressions -/

lemma meant_map {α β : Type} (out : Eval α) (f : α → β) :
    meant (out >>= fun a => .ok (f a)) = f <$> meant out := by
  rw [meant_bind, ← bind_pure_comp]
  rfl

/-- What the code of an evaluation comes to in a run, where the result says how the code is left. -/
lemma comes_of_does {α : Type} {Q R : α → Prop} {exit : α → Exit} {K : List Label} {x : Lower Unit}
    {out : Eval α} (hP : Complete P) (hs : Sited P.env σ) (hr : Ready σ)
    (hstays : Stays σ' P.lowered) (hag : Agrees P.env σ.scopes ρ L)
    (hK : ∀ l ∈ K, l.id < σ.code.labels.size)
    (h : Scene.Does ⟨P.having σ.scopes L, ρ⟩ K [] x out fun a e => Q a ∧ e = exit a)
    (hok : x P.env σ = .ok (u, σ')) (hR : ∀ a, Q a → (∀ s, (P.having σ.scopes L).Leaves true σ σ'
    ((P.having σ.scopes L).spot [] σ.code.size [] s) [] (exit a) [] s) → R a) :
    Comes P k ⟨L, [], σ.code.size⟩ R (some out) := by
  refine .of_meets hP.unguarded
    (fun s => (h (standing hs hr) hK hok).2 (hP.staged.having _ _) hag hstays [] [] s)
    fun a _ hall => ?_
  obtain ⟨_, ⟨hQ, -⟩, -⟩ := hall {}
  refine hR a hQ fun s => ?_
  obtain ⟨_, ⟨-, rfl⟩, hleaves⟩ := hall s
  exact hleaves

namespace Typed

variable (he : Typed e p) (hs : Sited P.env σ) (hr : Ready σ)

include he hs hr

lemma emits_as (h : (operand e).as ty P.env σ = .ok (u, σ')) : Emits σ σ' := by
  obtain ⟨_, τ, hτ, h⟩ := bind_eq_ok_iff.1 h
  have hvalue := (he.evaluates ⟨P.having σ.scopes #[], ⟨[], []⟩⟩).value (standing hs hr) nofun hτ
  exact (hvalue.1.2 rfl).trans
    (Adds.of_straight (.placed _ (.bind (.sound _) fun _ => .coerce _ _)) h).1

/-- The code of an expression, brought to a type. -/
lemma as (hq : ty.erase = .prim q) (hw : isWhole q) (h : (operand e).as ty P.env σ = .ok (u, σ'))
    (hP : Complete P) (hstays : Stays σ' P.lowered) (hag : Agrees P.env σ.scopes ρ L) :
    Comes P k ⟨L, [], σ.code.size⟩
    (fun w => w.ty = p ∧ InRange q w.val ∧ (σ.code.reachable → σ'.code.reachable) ∧
    Goes P ⟨L, [], σ.code.size⟩ ⟨L, [Whole.toValue ⟨q, w.val⟩], σ'.code.size⟩) (value ρ e) := by
  have heval := he.evaluates ⟨P.having σ.scopes L, ρ⟩
  have has := heval.as ty hq hw
  unfold Scene.Yields Performance.Gives at has
  rw [meant_map] at has
  have has := (Performance.Does.of_fmap has).imp (F := fun w e => (w.ty = p ∧ InRange q w.val) ∧
    e = ⟨none, [Whole.toValue ⟨q, w.val⟩]⟩) fun w e hw he => by
      obtain ⟨label, stack⟩ := e
      obtain ⟨rfl, rfl, -, hrange⟩ := he
      exact ⟨⟨heval.typed w (eq_of_returns_meant hw), hrange⟩, rfl⟩
  exact comes_of_does (K := []) hP hs hr hstays hag nofun has h fun w hw hleaves =>
    ⟨hw.1, hw.2, (hleaves {}).1 rfl, fun s => (hleaves s).2⟩

lemma jump {want : Bool} (hl : l.id < σ.code.labels.size)
    (h : (operand e).jump want l P.env σ = .ok (u, σ')) :
    Emits σ σ' ∧ (Complete P → Stays σ' P.lowered → ∀ ρ L k, Agrees P.env σ.scopes ρ L →
      Comes P k ⟨L, [], σ.code.size⟩ (fun w =>
        Leaves P σ σ' ⟨L, [], σ.code.size⟩ (if w.isTrue = want then some l else none))
        (value ρ e)) := by
  have hK : ∀ k ∈ [l], k.id < σ.code.labels.size := by simpa using hl
  refine ⟨((he.evaluates ⟨P.having σ.scopes #[], ⟨[], []⟩⟩).jump want l (standing hs hr) hK h).1.2
    rfl, fun hP hstays ρ L k hag => ?_⟩
  have hjump := (he.evaluates ⟨P.having σ.scopes L, ρ⟩).jump want l
  unfold Scene.truth at hjump
  rw [meant_map] at hjump
  have hjump := (Performance.Does.of_fmap hjump).imp fun w e _ he => (⟨trivial, he⟩ : True ∧ _)
  refine comes_of_does hP hs hr hstays hag hK hjump h fun w _ hleaves => ?_
  by_cases hw : w.isTrue = want
  · simp only [if_pos hw] at hleaves ⊢
    obtain ⟨href, t, ht, -⟩ := hleaves {}
    refine ⟨href rfl, t, ht, fun s => ?_⟩
    obtain ⟨-, t', ht', hleaps⟩ := hleaves s
    obtain rfl := Option.some.inj (ht.symm.trans ht')
    exact hleaps
  · simp only [if_neg hw] at hleaves ⊢
    exact ⟨(hleaves {}).1 rfl, fun s => (hleaves s).2⟩

end Typed

namespace Executes

variable {x y : Lower Unit} {f g : Store → Run Flow}

lemma placed (place : String) (hx : Executes P k x f) : Executes P k (placed place x) f :=
  fun _ _ _ hs hr h => hx hs hr (placed_eq_ok_iff.1 h)

lemma pure : Executes P k (Pure.pure ()) fun ρ => return .next ρ := by
  intro σ u σ' _ _ h
  obtain ⟨-, rfl⟩ := pure_eq_ok_iff.1 h
  exact ⟨⟨[], (Emits.refl σ).declares⟩, fun _ _ hreach ρ L _ hag => ⟨hreach, L, rfl, hag, .refl _⟩⟩

lemma bind (hx : Executes P k x f) (hy : Executes P k y g) :
    Executes P k (do x; y) fun ρ => andThen (f ρ) g := by
  intro σ u σ' hs hr h
  obtain ⟨_, τ, hτ, h⟩ := bind_eq_ok_iff.1 h
  obtain ⟨⟨vs, hvs⟩, hx⟩ := hx hs hr hτ
  obtain ⟨⟨ws, hws⟩, hy⟩ := hy (hvs.sited hs) (hvs.ready hr) h
  refine ⟨⟨ws ++ vs, hvs.trans hws⟩, fun hP hstays hreach ρ L hL hag => ?_⟩
  refine (hx hP (hws.stays.trans hstays) hreach ρ L hL hag).andThen fun ρ' L' hL' hag' hreach' => ?_
  exact hy hP hstays hreach' ρ' L' (hL'.trans hL) hag'

/-- The bindings of a scope are dropped where it ends. -/
lemma inScope (hx : Executes P k x f) (hs : Sited P.env σ) (hr : Ready σ)
    (h : inScope x P.env σ = .ok (u, σ')) :
    Declares [] σ σ' ∧ Follows P k σ σ' fun ρ => do return leave ρ (← f ρ) := by
  have hrin : Ready σ.enter := ⟨hr.laid, hr.coherent⟩
  obtain ⟨hd, vs, τ, hτ, hvs, rfl⟩ := inScope_eq_ok (fun h => (hx hs.enter hrin h).1) hs h
  refine ⟨hd, fun hP hstays hreach ρ L hL hag => ?_⟩
  have hin : Stays τ P.lowered :=
    ⟨⟨hstays.code, hstays.supply.coherent, hstays.supply.pool, hstays.supply.locals⟩, hstays.size⟩
  refine Comes.bind ((hx hs.enter hrin hτ).2 hP hin hreach ρ L hL ⟨hag.locals, hag.params⟩)
    fun flow hflow => ?_
  cases flow with
  | returned v => exact hflow
  | next ρ' =>
    obtain ⟨hr', L', hL', hag', hgo⟩ := hflow
    refine ⟨hr', L', hL', ⟨?_, hag'.params⟩, hgo⟩
    have hvis := hvs.visible_eq hs.enter.scopes
    have hlen : (visible τ).length = ρ'.locals.length := hag'.locals.length_eq
    have hlen₀ : (visible σ).length = ρ.locals.length := hag.locals.length_eq
    have hdrop : Forall₂ (Bound L') ((visible τ).drop _) _ :=
      forall₂_drop (ρ'.locals.length - ρ.locals.length) hag'.locals
    have hcount : ρ'.locals.length - ρ.locals.length = vs.length := by
      rw [← hlen, ← hlen₀, hvis, length_append]
      exact Nat.add_sub_cancel _ _
    rw [hvis, hcount, drop_left] at hdrop
    rw [← hcount] at hdrop
    exact hdrop

/-! ### Assignments and definitions -/

variable {name : String}

/-- The machine has a slot for each variable. -/
lemma slot_lt_size {v : Local} (hL : L.size = P.session.attr.maxLocals.toNat + 1)
    (hs : Sited P.env σ) (hP : Complete P) (hstays : Stays σ P.lowered)
    (hv : v ∈ visible σ ++ P.env.params) : v.slot < L.size := by
  have hlt := hs.slots.slot_lt hv
  have hfits := hs.fits
  have hmax := hstays.supply.locals
  have hlocals := hP.locals
  omega

/-- A value that is stored in a slot. -/
lemma store {v : Local} {τ' : State} {next : Whole → Store} (hq : ty.erase = .prim q)
    (hw : isWhole q) (he : Typed e p) (hs : Sited P.env σ) (hr : Ready σ) (hP : Complete P)
    (hag : Agrees P.env σ.scopes ρ L) (hτ : (operand e).as ty P.env σ = .ok ((), τ))
    (hkept : Stays τ τ') (hcode : τ'.code = τ.code) (hr' : Ready τ') (hstays : Stays σ' P.lowered)
    (hst : Lowering.store v P.env τ' = .ok (u, σ')) (hlt : v.slot < L.size)
    (hreach : σ.code.reachable) (hnext : ∀ w, w.ty = p → InRange q w.val →
    Agrees P.env σ'.scopes (next w) (L.setIfInBounds v.slot (Whole.toValue ⟨q, w.val⟩))) :
    Proceeds P k σ' ⟨L, [], σ.code.size⟩
    (value ρ e >>= fun w => return .next (next w) : Run Flow) := by
  have hkept' := hkept.trans ((Adds.store v hst).1.declares.stays.trans hstays)
  refine (he.as hs hr hq hw hτ hP hkept' hag).bind fun w ⟨hty, hrange, hreach', hgo⟩ => ?_
  have hstore : Goes P ⟨L, [Whole.toValue ⟨q, w.val⟩], τ'.code.size⟩ ⟨_, [], σ'.code.size⟩ :=
    (leaps_store hP hr' hstays hst hlt).goes
  rw [hcode] at hstore
  exact ⟨(Adds.store v hst).2 (hcode ▸ hreach' hreach), _, Array.size_setIfInBounds,
    hnext w hty hrange, hgo.trans hstore⟩

/-- An assignment to a variable that is found. -/
lemma assign {find : Lower (Option Local)} {missing : Unresolved} {term : Expr}
    (next : Store → Int → Store) (he : Typed e p)
    (hf : ∀ ⦃σ v σ'⦄, find P.env σ = .ok (v, σ') → σ = σ')
    (hag : ∀ ⦃ρ L σ v⦄, Sited P.env σ → Agrees P.env σ.scopes ρ L → find P.env σ = .ok (some v, σ) →
      v ∈ visible σ ++ P.env.params ∧ ∃ q, v.ty.erase = .prim q ∧ isWhole q ∧
        ∀ n, InRange q n → v.slot < L.size →
          Agrees P.env σ.scopes (next ρ n) (L.setIfInBounds v.slot (Whole.toValue ⟨q, n⟩))) :
    Executes P k ((Lowering.variableOperand term find missing ty).assign (Lowering.operand e).as)
      fun ρ => do return .next (next ρ (← value ρ e).val) := by
  intro σ u σ' hs hr h
  obtain ⟨v, σ₁, hv, h⟩ := bind_eq_ok_iff.1 h
  have hv := found_eq_ok hv
  obtain rfl := hf hv
  obtain ⟨_, τ, hτ, hst⟩ := bind_eq_ok_iff.1 h
  have eτ := he.emits_as hs hr hτ
  have eσ := (Adds.store v hst).1
  have hd := (eτ.trans eσ).declares
  refine ⟨⟨[], hd⟩, fun hP hstays hreach ρ L hL hagrees => ?_⟩
  obtain ⟨hmem, q, hty, hq, hag⟩ := hag hs hagrees hv
  have hlt := slot_lt_size hL hs hP (hd.stays.trans hstays) hmem
  exact store hty hq he hs hr hP hagrees hτ (.refl τ) rfl (hr.emits eτ) hstays hst hlt hreach
    fun w _ hrange =>
    (hag w.val hrange hlt).of_declares hd

lemma assignLocal (he : Typed e p) :
    Executes P k ((operand (.localVar name ty)).assign (operand e).as)
    fun ρ => do return .next (ρ.assign name (← value ρ e).val) := by
  refine assign (·.assign name ·) he (fun σ v σ' h => (lookup?_eq_ok h).1)
    fun ρ L σ v hs hag hv => ?_
  obtain ⟨-, hfound⟩ := lookup?_eq_ok hv
  have hmem : v ∈ visible σ ++ P.env.params := mem_of_find?_eq_some (find?_append.trans hfound.symm)
  obtain ⟨b, hb⟩ := exists_bound (rel_append hag.locals hag.params) hmem
  exact ⟨hmem, b.value.ty, hb.type, hb.whole, fun n hn hlt =>
    hag.assign hs.slots hfound hb.type hn hlt⟩

lemma assignParam (he : Typed e p) : Executes P k ((operand (.param name ty)).assign (operand e).as)
    fun ρ => do return .next { ρ with params := rebind name (← value ρ e).val ρ.params } := by
  refine assign (fun ρ n => { ρ with params := rebind name n ρ.params }) he
    (fun σ v σ' h => (param?_eq_ok h).1) fun ρ L σ v hs hag h => ?_
  have hv := (param?_eq_ok h).2.symm
  have hmem := mem_of_find?_eq_some hv
  obtain ⟨b, hb⟩ := exists_bound hag.params hmem
  exact ⟨mem_append_right _ hmem, b.value.ty, hb.type, hb.whole,
    fun n hn hlt => hag.assignParam hs.slots hv hb.type hn hlt⟩

lemma declaredType_eq {w : Whole} (hty : ty.erase = .prim q) (hq : isWhole q) :
    declaredType ty w = q := by
  cases ty with
  | absent => cases hty; cases hq
  | _ => exact Scene.unboxed_eq hty

lemma define (he : Typed e p) (hty : ty = .absent ∨ ∃ q, ty.erase = .prim q ∧ isWhole q) :
    Executes P k (Lowering.define name ty (Lowering.operand e)) fun ρ => do
      let w ← value ρ e
      return .next { ρ with locals := ⟨name, declaredType ty w, w.val⟩ :: ρ.locals } := by
  intro σ u σ' hs hr h
  obtain ⟨t, ht, h⟩ := define_eq_ok he.present h
  obtain ⟨τ, τ', v, hτ, hv, hst⟩ := defineAs_eq_ok h
  obtain ⟨rfl, hd, hcode, -⟩ := declare_eq_ok hv
  have eτ := he.emits_as hs hr hτ
  have hdσ := hd.trans (Adds.store _ hst).1.declares
  refine ⟨⟨_, eτ.declares.trans hdσ⟩, fun hP hstays hreach ρ L hL hag => ?_⟩
  -- Without a type the variable has that of its value.
  have hq : ∃ q, t.erase = .prim q ∧ isWhole q ∧ ∀ w : Whole, w.ty = p → declaredType ty w = q := by
    rcases ht with ⟨rfl, ht⟩ | ⟨hne, rfl⟩
    · have heval := he.evaluates ⟨P, ρ⟩
      obtain ⟨t', ht', hp⟩ := heval.type
      obtain rfl := Except.ok.inj (ht'.symm.trans ht)
      exact ⟨p, hp, heval.whole, fun w => id⟩
    · obtain ⟨q, hq, hw⟩ := hty.resolve_left hne
      exact ⟨q, hq, hw, fun w _ => declaredType_eq hq hw⟩
  obtain ⟨q, htq, hw, hdecl⟩ := hq
  have hrτ := hr.emits eτ
  have hsτ := eτ.declares.sited hs
  have hlt := slot_lt_size hL (hdσ.sited hsτ) hP hstays
    (mem_append_left _ (by rw [hdσ.visible_eq hsτ.scopes]; exact mem_cons_self))
  refine store htq hw he hs hr hP hag hτ hd.stays hcode (hd.ready hrτ) hstays hst hlt hreach
    fun w hok hrange => ?_
  rw [hdecl w hok]
  exact (hag.of_declares eτ.declares).define hsτ.slots hdσ hsτ.scopes rfl htq hw hrange hlt

/-! ### Returns -/

lemma ret (he : Typed e p)
    (hret : P.env.method.returns.isVoid ∨ ∃ q, P.env.method.returns.erase = .prim q ∧ isWhole q) :
    Executes P k (giveBack (operand e)) fun ρ => do return .returned (some (← value ρ e).val) := by
  intro σ u σ' hs hr h
  rcases giveBack_eq_ok (fun _ _ _ _ => he.emits_as hs hr) hs h with ⟨habs, -⟩ | ⟨-, hvoid,
    τ, hτ, h⟩
  · rw [he.present] at habs
    cases habs
  have eτ := he.emits_as hs hr hτ
  have eσ : Emits τ σ' := (Single.emit rfl).emits h
  refine ⟨⟨[], (eτ.trans eσ).declares⟩, fun hP hstays hreach ρ L hL hag => ?_⟩
  obtain ⟨q, hq, hw⟩ := hret.resolve_left (ne_true_of_eq_false hvoid)
  refine (he.as hs hr hq hw hτ hP (eσ.declares.stays.trans hstays) hag).bind
    fun w ⟨_, hrange, _, hgo⟩ => ?_
  show Scene.Answers _ (some w.val) ∧ Ends P _ fun s => (.ok (Scene.given _ (some w.val)), s)
  rw [Scene.Answers, Scene.given, Scene.unboxed_eq hq]
  exact ⟨hrange, hgo.ends (ends_emit hP (hr.emits eτ) hstays rfl h fun _ _ _ ha =>
    ⟨_, Machine.step_returnValue ha⟩)⟩

lemma retVoid : Executes P k (giveBack (operand .absent)) fun _ => return .returned none := by
  intro σ u σ' hs hr h
  rcases giveBack_eq_ok (fun h => absurd h (by decide)) hs h with ⟨-, hvoid, h⟩ | ⟨h, -⟩
  · exact ⟨⟨[], ((Single.emit rfl).emits h).declares⟩, fun hP hstays _ ρ L _ _ =>
      ⟨hvoid, ends_emit hP hr hstays rfl h fun _ _ _ ha => ⟨_, Machine.step_returnVoid ha⟩⟩⟩
  · exact absurd h (by decide)

/-! ### Control -/

variable {body : Store → Run Flow}

lemma whenTrue (he : Typed e p) (hx : Executes P k x f) :
    Executes P k (whenTrue (operand e) x) fun ρ => do
    if (← value ρ e).isTrue then return leave ρ (← f ρ) else return .next ρ := by
  intro σ u σ' hs hr h
  obtain ⟨skip, σ₁, h₁, h⟩ := bind_eq_ok_iff.1 h
  obtain ⟨_, σ₂, h₂, h⟩ := bind_eq_ok_iff.1 h
  obtain ⟨_, σ₃, h₃, h₄⟩ := bind_eq_ok_iff.1 h
  obtain ⟨e₁, hskip, hsize₁, hreach₁⟩ := newLabel_spec h₁
  obtain ⟨e₂, hjump⟩ := he.jump (e₁.declares.sited hs) (hr.emits e₁) hskip h₂
  have d₂ := (e₁.trans e₂).declares
  have r₂ := d₂.ready hr
  obtain ⟨d₃, hin⟩ := hx.inScope (d₂.sited hs) r₂ h₃
  have e₄ := join_emits h₄
  obtain ⟨hpos, hsize, hreach⟩ := join_spec (d₃.label (e₂.label hskip)) h₄
  refine ⟨⟨[], (d₂.trans d₃).trans e₄.declares⟩, fun hP hstays hr₀ ρ L hL hag => ?_⟩
  have s₃ := e₄.declares.stays.trans hstays
  have hag₂ := hag.of_declares d₂
  have hjump := hjump hP (d₃.stays.trans s₃) ρ L k (hag.of_declares e₁.declares)
  rw [← hsize₁]
  refine .branch hjump (hstays.code.position hpos) (Nat.le_succ k) (fun w hw hreach₂ => ?_)
    fun w hw href => ?_
  · rw [if_pos (by simpa using hw)]
    exact (hin hP s₃ (hreach₂ (hreach₁ ▸ hr₀)) ρ L hL hag₂).finish e₄ hsize fun hr₃ =>
      hreach (.inl hr₃)
  · rw [if_neg (by simp [hw])]
    exact ⟨hreach (.inr (d₃.code.referred href)), L, rfl,
      (hag₂.of_declares d₃).of_declares e₄.declares, hsize ▸ .refl _⟩

lemma choose (he : Typed e p) (hx : Executes P k x f) (hy : Executes P k y g) :
    Executes P k (choose (operand e) x y) fun ρ => do
      if (← value ρ e).isTrue then return leave ρ (← f ρ) else return leave ρ (← g ρ) := by
  intro σ u σ' hs hr h
  obtain ⟨other, σ₁, h₁, h⟩ := bind_eq_ok_iff.1 h
  obtain ⟨stop, σ₂, h₂, h⟩ := bind_eq_ok_iff.1 h
  obtain ⟨_, σ₃, h₃, h⟩ := bind_eq_ok_iff.1 h
  obtain ⟨_, σ₄, h₄, h⟩ := bind_eq_ok_iff.1 h
  obtain ⟨σ₅, h₅, h⟩ := ifReachable_eq_ok h
  obtain ⟨_, σ₆, h₆, h⟩ := bind_eq_ok_iff.1 h
  obtain ⟨_, σ₇, h₇, h₈⟩ := bind_eq_ok_iff.1 h
  obtain ⟨e₁, hother, hsize₁, hreach₁⟩ := newLabel_spec h₁
  obtain ⟨e₂, hstop, hsize₂, hreach₂⟩ := newLabel_spec h₂
  have d₂ := (e₁.trans e₂).declares
  obtain ⟨e₃, hjump⟩ := he.jump (d₂.sited hs) (d₂.ready hr) (e₂.label hother) h₃
  have d₃ := d₂.trans e₃.declares
  have hs₃ := d₃.sited hs
  have r₃ := d₃.ready hr
  obtain ⟨d₄, hyes⟩ := hx.inScope hs₃ r₃ h₄
  have hs₄ := d₄.sited hs₃
  have r₄ := d₄.ready r₃
  have hstop₄ := d₄.label (e₃.label hstop)
  have e₅ : Emits σ₄ σ₅ := by
    rcases h₅ with ⟨-, h₅⟩ | ⟨-, rfl⟩
    · exact branch_emits rfl hstop₄ h₅
    · exact .refl _
  have e₆ := join_emits h₆
  have d₄₆ := (e₅.trans e₆).declares
  obtain ⟨d₇, hno⟩ := hy.inScope (d₄₆.sited hs₄) (d₄₆.ready r₄) h₇
  have e₈ := join_emits h₈
  have d₄₈ := (d₄₆.trans d₇).trans e₈.declares
  obtain ⟨hpos₆, hsize₆, hreach₆⟩ := join_spec (e₅.label (d₄.label (e₃.label (e₂.label hother)))) h₆
  obtain ⟨hpos₈, hsize₈, hreach₈⟩ := join_spec (d₇.label (d₄₆.label hstop₄)) h₈
  refine ⟨⟨[], (d₃.trans d₄).trans d₄₈⟩, fun hP hstays hr₀ ρ L hL hag => ?_⟩
  have s₇ := e₈.declares.stays.trans hstays
  have s₄ := d₄₈.stays.trans hstays
  have hag₃ := hag.of_declares d₃
  have hjump := hjump hP (d₄.stays.trans s₄) ρ L k (hag.of_declares d₂)
  rw [← hsize₁, ← hsize₂]
  refine .branch hjump (s₇.code.position (d₇.code.position hpos₆)) (Nat.le_succ k)
    (fun w hw hreach₃ => ?_) fun w hw href => ?_
  · rw [if_pos (by simpa using hw), ← Proceeds.andThen_next (do return leave ρ (← f ρ))]
    refine (hyes hP s₄ (hreach₃ (hreach₂ ▸ hreach₁ ▸ hr₀)) ρ L hL hag₃).andThen
      fun ρ' L' hL' hag' hr₄ => ?_
    obtain ⟨-, h₅⟩ := h₅.resolve_right fun h => by rw [h.1] at hr₄; cases hr₄
    have href := d₇.code.referred (e₆.code.referred (referred_of_branch hstop₄ h₅))
    refine ⟨hreach₈ (.inr href), L', rfl, hag'.of_declares d₄₈, ?_⟩
    rw [hsize₈]
    exact goes_goto hP hs₄ r₄ hstop₄ h₅ ((e₆.declares.trans d₇).stays.trans s₇)
      (hstays.code.position hpos₈)
  · rw [if_neg (by simp [hw]), ← hsize₆]
    have href₆ := e₅.code.referred (d₄.code.referred href)
    exact (hno hP s₇ (hreach₆ (.inr href₆)) ρ L hL ((hag₃.of_declares d₄).of_declares d₄₆)).finish
      e₈ hsize₈ fun hr₇ => hreach₈ (.inl hr₇)

lemma iterate_succ (j : Nat) :
    iterate (fun ρ => do return (← value ρ e).isTrue) body (j + 1) ρ = (do
      if (← value ρ e).isTrue then
        andThen (body ρ) (iterate (fun ρ => do return (← value ρ e).isTrue) body j)
      else return .next ρ) := by
  rw [iterate]
  unfold value
  cases eval ρ e <;> rfl

/-- The rounds of a loop, of which each starts at the test: its branch leads to the body at `t`, and
the body to the test again. -/
lemma rounds {top : Label} {t : Nat} (hreach : σ.code.reachable)
    (hjump : ∀ ρ L k, Agrees P.env σ.scopes ρ L → Comes P k ⟨L, [], σ.code.size⟩ (fun w =>
      Leaves P σ σ' ⟨L, [], σ.code.size⟩ (if w.isTrue = true then some top else none)) (value ρ e))
    (htop : P.lowered.code.position? top = some t) (he : Emits σ σ')
    (hbody : ∀ ρ L, L.size = P.session.attr.maxLocals.toNat + 1 → Agrees P.env σ.scopes ρ L →
      Proceeds P k τ ⟨L, [], t⟩ (body ρ))
    (hsize : σ.code.size = τ.code.size) (hscopes : τ.scopes = σ.scopes) {j : Nat} (hj : j ≤ k) :
    ∀ ρ L, L.size = P.session.attr.maxLocals.toNat + 1 → Agrees P.env σ.scopes ρ L →
      Proceeds P j σ' ⟨L, [], σ.code.size⟩
      (iterate (fun ρ => do return (← value ρ e).isTrue) body j ρ) := by
  induction j with
  | zero => exact fun ρ L _ _ s _ n hn => absurd hn (Nat.not_lt_zero n)
  | succ j ih =>
    intro ρ L hL hag
    rw [iterate_succ]
    refine .branch (hjump ρ L _ hag) htop le_rfl (fun w hw hreach' => ?_) fun w hw _ => ?_
    · rw [if_neg hw]
      exact ⟨hreach' hreach, L, rfl, hag.of_declares he.declares, .refl _⟩
    · rw [if_pos hw]
      refine Proceeds.andThen (Comes.imp (hbody ρ L hL hag) (by omega) fun _ => id)
        fun ρ' L' hL' hag' _ => ?_
      rw [← hsize]
      exact ih (by omega) ρ' L' (hL'.trans hL) (hscopes ▸ hag')

lemma loop (he : Typed e p) (hx : Executes P k x f) : Executes P k (loop (operand e) x) fun ρ =>
    iterate (fun ρ => do return (← value ρ e).isTrue) (fun ρ => do return leave ρ (← f ρ)) k ρ := by
  intro σ u σ' hs hr h
  obtain ⟨top, σ₁, h₁, h⟩ := bind_eq_ok_iff.1 h
  obtain ⟨check, σ₂, h₂, h⟩ := bind_eq_ok_iff.1 h
  obtain ⟨_, σ₃, h₃, h⟩ := bind_eq_ok_iff.1 h
  obtain ⟨_, σ₄, h₄, h⟩ := bind_eq_ok_iff.1 h
  obtain ⟨_, σ₅, h₅, h⟩ := bind_eq_ok_iff.1 h
  obtain ⟨_, σ₆, h₆, h₇⟩ := bind_eq_ok_iff.1 h
  obtain ⟨e₁, htop, hsize₁, -⟩ := newLabel_spec h₁
  obtain ⟨e₂, hcheck, hsize₂, -⟩ := newLabel_spec h₂
  have d₂ := (e₁.trans e₂).declares
  have e₃ := branch_emits rfl hcheck h₃
  have e₄ := mark_emits h₄
  have d₄ := d₂.trans (e₃.trans e₄).declares
  have hs₄ := d₄.sited hs
  have r₄ := d₄.ready hr
  obtain ⟨d₅, hin⟩ := hx.inScope hs₄ r₄ h₅
  have e₆ := mark_emits h₆
  have d₄₆ := d₅.trans e₆.declares
  have htop₃ := e₃.label (e₂.label htop)
  obtain ⟨e₇, hjump⟩ := he.jump (d₄₆.sited hs₄) (d₄₆.ready r₄) (d₄₆.label (e₄.label htop₃)) h₇
  obtain ⟨hpos₄, hsize₄, hreach₄⟩ := mark_spec htop₃ h₄
  obtain ⟨hpos₆, hsize₆, hreach₆⟩ := mark_spec (d₅.label (e₄.label (e₃.label hcheck))) h₆
  refine ⟨⟨[], (d₄.trans d₄₆).trans e₇.declares⟩, fun hP hstays hr₀ ρ L hL hag => ?_⟩
  have s₆ := e₇.declares.stays.trans hstays
  have s₅ := e₆.declares.stays.trans s₆
  have hscopes₆ : σ₆.scopes = σ₄.scopes := by rw [d₄₆.rest]; rfl
  have hscopes₅ : σ₅.scopes = σ₄.scopes := by rw [d₅.rest]; rfl
  have hround := rounds (k := k) (e := e) hreach₆ (fun ρ L k hag => hjump hP hstays ρ L k hag)
    (s₅.code.position (d₅.code.position hpos₄)) e₇
    (fun ρ L hL hag => hsize₄ ▸ hin hP s₅ hreach₄ ρ L hL (hscopes₆ ▸ hag))
    hsize₆ (hscopes₅.trans hscopes₆.symm) le_rfl
  have hgoto : Goes P ⟨L, [], σ₂.code.size⟩ ⟨L, [], σ₅.code.size⟩ :=
    goes_goto hP (d₂.sited hs) (d₂.ready hr) hcheck h₃ ((e₄.declares.trans d₅).stays.trans s₅)
      (s₆.code.position hpos₆)
  rw [hsize₂, hsize₁, ← hsize₆] at hgoto
  exact (hround ρ L hL ((hag.of_declares d₄).of_declares d₄₆)).of_goes hgoto rfl

end Executes

/-! ### Statements -/

/-- Statements over `boolean` and the integral types: definitions with a value, assignments,
conditions, loops, blocks and returns. -/
inductive Structured : Stmt → Prop where
  | absent : Structured .absent
  | ret {e : Expr} {p : Prim} (h : Typed e p) : Structured (.ret e)
  | retVoid : Structured (.ret .absent)
  | assignLocal (name : String) (ty : Ty) {e : Expr} {p : Prim} (h : Typed e p) :
      Structured (.assign (.localVar name ty) e)
  | assignParam (name : String) (ty : Ty) {e : Expr} {p : Prim} (h : Typed e p) :
      Structured (.assign (.param name ty) e)
  | define (name : String) {ty : Ty} {e : Expr} {p : Prim} (h : Typed e p)
      (hty : ty = .absent ∨ ∃ q, ty.erase = .prim q ∧ isWhole q) : Structured (.define name ty e)
  | when {e : Expr} {p : Prim} {s : Stmt} (h : Typed e p) (hs : Structured s) :
      Structured (.when e s)
  | choose {e : Expr} {p : Prim} {s t : Stmt} (h : Typed e p) (hs : Structured s)
      (ht : Structured t) :
      Structured (.choose e s t)
  | loop {e : Expr} {p : Prim} {s : Stmt} (h : Typed e p) (hs : Structured s) :
      Structured (.loop e s)
  | block {ss : List Stmt} (h : ∀ s ∈ ss, Structured s) : Structured (.block ss)

variable {ss : List Stmt}

lemma executes_statements (h : ∀ s ∈ ss, Executes P k (statement s) (exec k s)) :
    Executes P k (statements ss) (execs k ss) := by
  induction ss with
  | nil => exact .pure
  | cons s ss ih =>
    obtain ⟨hs, hss⟩ := forall_mem_cons.1 h
    exact hs.bind (ih hss)

/-- Lowering a statement gives code that does what the statement does. -/
lemma Structured.executes {s : Stmt} (h : Structured s)
    (hret : P.env.method.returns.isVoid ∨ ∃ q, P.env.method.returns.erase = .prim q ∧ isWhole q) :
    Executes P k (statement s) (exec k s) := by
  induction h with
  | absent => exact .pure
  | ret he =>
    have hexec := (Executes.ret (k := k) he hret).placed "Return"
    cases he <;> exact hexec
  | retVoid => exact Executes.retVoid.placed "Return"
  | assignLocal name ty he => exact (Executes.assignLocal he).placed "Assign"
  | assignParam name ty he => exact (Executes.assignParam he).placed "Assign"
  | define name he hty => exact (Executes.define he hty).placed "Define"
  | «when» he _ ih => exact (Executes.whenTrue he ih).placed "If"
  | choose he _ _ ihs iht => exact (Executes.choose he ihs iht).placed "IfElse"
  | loop he _ ih => exact (Executes.loop he ih).placed "While"
  | block _ ih => exact (executes_statements ih).placed "Multi"

end Classwright.Integral
