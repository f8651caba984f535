import Classwright.Proofs.Lowering.Execution

/-!
What lowered code does when it is run.

A term is lowered in the course of lowering a method, and the method is run once it is finished. The
judgement `Does` says of the lowering of a term that a run which comes to its code does what a
computation says, and how the code is left then: at its end or by a branch, with values on the
stack. It is kept by sequencing and by labels. Code that only pushes values is `Gives`, and code
that branches on the outcome is `Branches`. Either is about the calls that are made on the way and
their answers, or about code without calls, whose run does not depend on what calls do (`Mode`).
-/

namespace Classwright

/-! ### Effects of instructions -/

namespace Machine.Session

variable {α β : Type} {S : Session} {ins : List Value} {a : Action}

/-- A computation in a frame takes values from the stack and does what another one says, which tells
its result and what it puts there. -/
def Effects (S : Session) (x : Op β) (ins : List Value) (y : Exec α) (outs : α → β × List Value) :
    Prop :=
  ∀ st s, match y s with
    | (.ok a, s') => x (S.frame (ins ++ st)) s = ((.ok (outs a).1, S.frame ((outs a).2 ++ st)), s')
    | (.error e, s') => ∃ g, x (S.frame (ins ++ st)) s = ((.error e, g), s')

lemma effects_push (v : Value) : S.Effects (push v) [] (pure v) fun w => ((), [w]) := fun _ _ => rfl

/-- A value that is found is put on the stack. -/
lemma Effects.push {x : Op Value} {y : Exec Value} (h : S.Effects x ins y fun w => (w, [])) :
    S.Effects (x >>= Machine.push) ins y fun w => ((), [w]) := by
  intro st s
  have h := h st s
  rw [Op.bind_apply]
  generalize y s = r at h ⊢
  obtain ⟨e | w, s'⟩ := r
  · obtain ⟨g, h⟩ := h
    exact ⟨g, by rw [h]⟩
  · rw [h]
    rfl

namespace Steps

variable {inv : Invoke} {i : Insn}

/-- An instruction that is neither a branch nor an end. -/
lemma of_perform {y : Exec α} {outs : α → List Value} (ha : i.op.action? = some a)
    (hend : a.endsBlock = false) (hbranch : a.isBranch = false)
    (h : S.Effects (perform inv i a) ins y fun w => ((), outs w)) (st : List Value) :
    S.Steps inv i (ins ++ st) y fun w => (i.next, outs w ++ st) := by
  intro s
  have h := h st s
  generalize y s = r at h ⊢
  obtain ⟨e | w, s'⟩ := r
  · obtain ⟨g, h⟩ := h
    exact ⟨g, step_of_perform_error ha hend hbranch h⟩
  · exact step_of_perform ha hend hbranch h

/-- A branch. -/
lemma of_taken {y : Exec Bool} {t : Nat} {vs : List Value} (ha : i.op.action? = some a)
    (hbranch : a.isBranch) (ht : i.operand = t)
    (h : S.Effects (taken a) ins y fun b => (b, vs)) (st : List Value) :
    S.Steps inv i (ins ++ st) y fun b => (if b then t else i.next, vs ++ st) := by
  intro s
  have h := h st s
  generalize y s = r at h ⊢
  obtain ⟨e | b, s'⟩ := r
  · obtain ⟨g, h⟩ := h
    exact ⟨g, step_of_taken_error ha hbranch h⟩
  · dsimp only
    rw [step_of_taken ha hbranch h, ht]
    cases b <;> rfl

end Steps

end Machine.Session

namespace Lowering

open Machine (Fetches Invocation Recorded Session Value Visited)

variable {α β γ : Type} {env : Env} {free : Bool} {ρ ρ' σ σ' τ : State} {l : Label}

/-! ### The course of lowering -/

/-- What is lowered at one time is there at a later one, and no less code. -/
structure Stays (σ τ : State) : Prop extends Remains σ τ where
  size : σ.code.size ≤ τ.code.size

lemma Stays.trans (h : Stays ρ σ) (h' : Stays σ τ) : Stays ρ τ :=
  ⟨h.toRemains.trans h'.toRemains, h.size.trans h'.size⟩

lemma Stays.refl (σ : State) : Stays σ σ := ⟨.of_emits (.refl σ), le_rfl⟩

lemma Declares.stays {vs : List Local} (h : Declares vs σ τ) : Stays σ τ :=
  ⟨⟨h.code.toExtends, h.coherent, h.pool, h.grows⟩, h.code.size⟩

/-- What is lowered between two states stays, and scopes and blocks around are as they were. -/
structure Continues (σ σ' : State) : Prop extends Stays σ σ' where
  laid : σ'.code.size ≤ 65535 → σ.code.Laid → σ'.code.Laid
  scopes : σ'.scopes = σ.scopes
  yields : σ'.yields = σ.yields

lemma Continues.trans (h : Continues ρ σ) (h' : Continues σ τ) : Continues ρ τ where
  toStays := h.toStays.trans h'.toStays
  laid hsize hlaid := h'.laid hsize (h.laid (h'.size.trans hsize) hlaid)
  scopes := h'.scopes.trans h.scopes
  yields := h'.yields.trans h.yields

lemma Emits.continues (h : Emits σ σ') : Continues σ σ' where
  toRemains := .of_emits h
  size := h.code.size
  laid _ := h.code.laid
  scopes := by rw [h.rest]
  yields := by rw [h.rest]

/-- A state from which a term is lowered, in the given scopes. Blocks around it end at labels that
are known. -/
structure Standing (scopes : List Scope) (σ : State) : Prop where
  scopes : σ.scopes = scopes
  stops : ∀ l ∈ σ.stops, l.id < σ.code.labels.size
  ready : σ.code.size ≤ 65535 → Ready σ

lemma Standing.continues {scopes : List Scope} (hσ : Standing scopes σ) (h : Continues σ σ') :
    Standing scopes σ' where
  scopes := h.scopes.trans hσ.scopes
  stops l hl := by
    rw [State.stops_eq h.yields] at hl
    exact (hσ.stops l hl).trans_le h.code.labels
  ready hsize := by
    obtain ⟨hlaid, hcoherent⟩ := hσ.ready (h.size.trans hsize)
    exact ⟨h.laid hsize hlaid, h.supply.coherent hcoherent⟩

/-- What is lowered between two states stays; if calls are free, nothing but code and constants is
added. -/
def Lowers (free : Bool) (σ σ' : State) : Prop := Continues σ σ' ∧ (free → Emits σ σ')

lemma Emits.lowers (h : Emits σ σ') : Lowers free σ σ' := ⟨h.continues, fun _ => h⟩

lemma Lowers.trans (h : Lowers free ρ σ) (h' : Lowers free σ τ) : Lowers free ρ τ :=
  ⟨h.1.trans h'.1, fun hf => (h.2 hf).trans (h'.2 hf)⟩

lemma Lowers.label (h : Lowers free σ σ') (hl : l.id < σ.code.labels.size) :
    l.id < σ'.code.labels.size :=
  hl.trans_le h.1.code.labels

/-! ### Performances -/

/-- A method that is lowered and run, at a place of it where scopes are given. -/
structure Performance where
  session : Session
  env : Env
  lowered : State
  scopes : List Scope

/-- How performances are looked at: whether calls are free, and what is given. -/
structure Mode where
  free : Bool
  given : Prop

/-- How code is left: at its end or by a branch to a label, with values on the stack. -/
structure Exit where
  label : Option Label
  stack : List Value

namespace Performance

variable {P : Performance}

/-- What is run is what was lowered: emitted instructions are found where they were put, and
constants in the pool. Either the pool has all of them, or no run comes to where one that it has not
is loaded. -/
structure Staged (P : Performance) : Prop where
  fetches : ∀ {ρ : State} {e : Emission} {d : Code}, Ready ρ → e.Fits →
    (∀ l ∈ e.labels, l.id < ρ.code.labels.size) →
    ρ.code.emission e = .ok d → d.Extends P.lowered.code →
    ∃ i, Fetches P.session.attr P.session.table ρ.code.size i ∧
      e.Yields P.lowered.code.position? i ∧ i.next = d.size
  size : P.lowered.code.size ≤ 65535
  pool : P.lowered.pool.Extends P.session.routine.pool
  constants : P.session.routine.pool.overflowed = false ∨ ∀ {f : Machine.Frame} {p : Nat} {s i},
    Visited P.session.attr P.session.table (f, p, s) → Fetches P.session.attr P.session.table p i →
      ¬ i.Loads 0

lemma Staged.ready (hP : P.Staged) (hρ : Standing P.scopes ρ) (h : Stays ρ P.lowered) : Ready ρ :=
  hρ.ready (h.size.trans hP.size)

/-- Lowering to code that does what a computation says: it takes values from the stack and leaves
the result. -/
def Performs (P : Performance) (ins : List Value) (x : Lower Unit) (m : Recorded α)
    (outs : α → List Value) : Prop :=
  ∀ ⦃ρ u ρ'⦄, Standing P.scopes ρ → x P.env ρ = .ok (u, ρ') → Continues ρ ρ' ∧
    (Stays ρ' P.lowered →
    ∀ st, P.session.Does ρ.code.size (ins ++ st) m fun a => (some ρ'.code.size, outs a ++ st))

/-- Lowering that changes nothing and tells what is so. -/
def Tells (P : Performance) (x : Lower α) (Q : α → Prop) : Prop :=
  ∀ ⦃ρ r ρ'⦄, ρ.scopes = P.scopes → x P.env ρ = .ok (r, ρ') → ρ' = ρ ∧ Q r

/-- A run at an offset. -/
def spot (P : Performance) (st : List Value) (p : Nat) (t : List Invocation) (s : Machine.State) :
    (Machine.Frame × Int × Machine.State) × List Invocation := ((P.session.frame st, p, s), t)

/-- A run leaves the code between two states. A branch that is taken is a step of its own. -/
def Leaves (P : Performance) (free : Bool) (ρ ρ' : State)
    (x : (Machine.Frame × Int × Machine.State) × List Invocation) (st : List Value) (e : Exit)
    (t : List Invocation) (s : Machine.State) : Prop :=
  match e.label with
  | none => (free → ρ.code.reachable → ρ'.code.reachable) ∧
      P.session.Comes free x (P.spot (e.stack ++ st) ρ'.code.size t s)
  | some l => (free → ρ'.code.Referred l) ∧ ∃ q, P.lowered.code.position? l = some q ∧
      P.session.Leaps free x (P.spot (e.stack ++ st) q t s)

/-- Lowering to code that does what a computation says, with values on the stack and labels that are
known. By the result, the code is left in one of some ways. -/
def Does (P : Performance) (M : Mode) (K : List Label) (ins : List Value) (x : Lower Unit)
    (m : Recorded α) (E : α → Exit → Prop) : Prop :=
  ∀ ⦃ρ u ρ'⦄, Standing P.scopes ρ → (∀ l ∈ K, l.id < ρ.code.labels.size) → x P.env ρ = .ok (u, ρ') →
    Lowers M.free ρ ρ' ∧ (P.Staged → M.given → Stays ρ' P.lowered → ∀ st t s,
      P.session.Meets M.free (P.spot (ins ++ st) ρ.code.size t s)
        (fun a t' s' => ∃ e, E a e ∧
        P.Leaves M.free ρ ρ' (P.spot (ins ++ st) ρ.code.size t s) st e t' s') (m t s))

/-- Lowering to code that leaves values on the stack. -/
def Gives (P : Performance) (M : Mode) (ins : List Value) (x : Lower Unit) (m : Recorded α)
    (V : α → List Value → Prop) : Prop :=
  P.Does M [] ins x m fun a e => e.label = none ∧ V a e.stack

/-- Lowering to code that leaves what the result stands for. -/
def Puts (P : Performance) (M : Mode) (ins : List Value) (x : Lower Unit) (m : Recorded α)
    (outs : α → List Value) : Prop :=
  P.Gives M ins x m fun a vs => vs = outs a

/-- Lowering to code that goes to a label if the outcome is as wanted. -/
def Branches (P : Performance) (M : Mode) (ins : List Value) (x : Label → Lower Unit)
    (m : Recorded Bool) (want : Bool) : Prop :=
  ∀ l, P.Does M [l] ins (x l) m fun b e => e = ⟨if b = want then some l else none, []⟩

/-- How code goes on: behind its end, or not at all. -/
def Resumes (P : Performance) (M : Mode) (K : List Label) (b : List Value) (x : Lower Unit)
    (m : Recorded α) (E : α → Exit → Prop) (e : Exit) : Prop :=
  match e.label with
  | none => P.Does M K (e.stack ++ b) x m E
  | some l => ∃ a, m = pure a ∧ E a ⟨some l, e.stack ++ b⟩

variable {M : Mode} {K : List Label} {ins b st : List Value} {x y : Lower Unit} {m : Recorded α}
  {E : α → Exit → Prop} {k : α → Recorded β} {G : β → Exit → Prop} {V : α → List Value → Prop}

/-- What leaves the second part of the code leaves it all. -/
lemma Leaves.of_comes {x y : (Machine.Frame × Int × Machine.State) × List Invocation} {e : Exit}
    {t : List Invocation} {s : Machine.State} (h : P.Leaves free τ σ' y st e t s)
    (hr : free → σ.code.reachable → τ.code.reachable) (hxy : P.session.Comes free x y) :
    P.Leaves free σ σ' x st e t s := by
  unfold Leaves at h ⊢
  cases hl : e.label with
  | none =>
    rw [hl] at h
    exact ⟨fun hf hσ => h.1 hf (hr hf hσ), hxy.trans h.2⟩
  | some l =>
    rw [hl] at h
    obtain ⟨href, q, hq, h⟩ := h
    exact ⟨href, q, hq, hxy.leaps h⟩

/-! ### Sequences -/

namespace Does

lemma mono {K' : List Label} (hx : P.Does M K ins x m E) (hK : K ⊆ K') : P.Does M K' ins x m E :=
  fun _ _ _ hρ hK' => hx hρ fun l hl => hK' l (hK hl)

lemma throw (e : Stop) : P.Does M K ins (throw e) m E := fun _ _ _ _ _ h => absurd h throw_ne_ok

lemma pure {a : α} (ha : E a ⟨none, ins⟩) : P.Does M K ins (pure ()) (Pure.pure a) E := by
  intro ρ u ρ' _ _ h
  obtain ⟨-, rfl⟩ := pure_eq_ok_iff.1 h
  exact ⟨(Emits.refl ρ).lowers, fun _ _ _ st t s => ⟨_, ha, fun _ => id, .refl _⟩⟩

lemma placed (place : String) (hx : P.Does M K ins x m E) : P.Does M K ins (placed place x) m E :=
  fun _ _ _ hρ hK h => hx hρ hK (placed_eq_ok_iff.1 h)

lemma of_placed {place : String} (hx : P.Does M K ins (Lowering.placed place x) m E) :
    P.Does M K ins x m E :=
  fun _ _ _ hρ hK h => hx hρ hK (placed_eq_ok_iff.2 h)

lemma ite {p : Prop} [Decidable p] (hx : p → P.Does M K ins x m E)
    (hy : ¬ p → P.Does M K ins y m E) : P.Does M K ins (if p then x else y) m E := by
  split
  · next h => exact hx h
  · next h => exact hy h

lemma tell {r : Lower γ} {f : γ → Lower Unit} {Q : γ → Prop} (hr : P.Tells r Q)
    (hf : ∀ c, Q c → P.Does M K ins (f c) m E) : P.Does M K ins (r >>= f) m E := by
  intro ρ u ρ' hρ hK h
  obtain ⟨c, ρ₁, hr₁, hf₁⟩ := bind_eq_ok_iff.1 h
  obtain ⟨rfl, hQ⟩ := hr hρ.scopes hr₁
  exact hf c hQ hρ hK hf₁

/-- The result by another name. -/
lemma map {f : α → Recorded β} (hx : P.Does M K ins x m E)
    (hf : ∀ a e, m.Returns a → E a e → ∃ b, f a = Pure.pure b ∧ G b e) :
    P.Does M K ins x (m >>= f) G := by
  intro ρ u ρ' hρ hK h
  obtain ⟨hl, hx⟩ := hx hρ hK h
  refine ⟨hl, fun hP hM hstays st t s =>
    (hx hP hM hstays st t s).bind fun a t' s' ha ⟨e, he, hleaves⟩ => ?_⟩
  obtain ⟨b, hb, hG⟩ := hf a e ⟨t, s, t', s', ha⟩ he
  rw [hb]
  exact ⟨e, hG, hleaves⟩

lemma fmap {f : α → β} (hx : P.Does M K ins x m E) (hf : ∀ a e, E a e → G (f a) e) :
    P.Does M K ins x (f <$> m) G := by
  rw [← bind_pure_comp]
  exact hx.map fun a e _ he => ⟨f a, rfl, hf a e he⟩

lemma of_fmap {f : α → β} (hx : P.Does M K ins x (f <$> m) G) :
    P.Does M K ins x m fun a => G (f a) := by
  intro ρ u ρ' hρ hK h
  obtain ⟨hl, hx⟩ := hx hρ hK h
  refine ⟨hl, fun hP hM hstays st t s => ?_⟩
  have hx := hx hP hM hstays st t s
  rw [← bind_pure_comp, Machine.Op.bind_apply] at hx
  generalize m t s = r at hx ⊢
  obtain ⟨⟨e | a, t'⟩, s'⟩ := r <;> exact hx

lemma imp {F : α → Exit → Prop} (hx : P.Does M K ins x m E)
    (hE : ∀ a e, m.Returns a → E a e → F a e) : P.Does M K ins x m F := by
  rw [← bind_pure m]
  exact hx.map fun a e ha he => ⟨a, rfl, hE a e ha he⟩

/-- One part of the code after the other, unless the first one branches. -/
lemma bind {w : Unit → Lower Unit} (hx : P.Does M K ins x m E) (he : ∃ a e, E a e ∧ e.label = none)
    (hw : ∀ a e u, E a e → P.Resumes M K b (w u) (k a) G e) :
    P.Does M K (ins ++ b) (x >>= w) (m >>= k) G := by
  intro ρ u ρ' hρ hK h
  obtain ⟨u', ρ₁, hx₁, hw₁⟩ := bind_eq_ok_iff.1 h
  obtain ⟨hl, hx⟩ := hx hρ hK hx₁
  have hρ₁ := hρ.continues hl.1
  have hK' (l : Label) (hmem : l ∈ K) := hl.label (hK l hmem)
  -- What is lowered does not depend on the result, so that any will do.
  have hl' : Lowers M.free ρ₁ ρ' := by
    obtain ⟨a, e, he, hnone⟩ := he
    have hw := hw a e u' he
    rw [Resumes, hnone] at hw
    exact (hw hρ₁ hK' hw₁).1
  refine ⟨hl.trans hl', fun hP hM hstays st t s => ?_⟩
  have hx := hx hP hM (hl'.1.toStays.trans hstays) (b ++ st) t s
  rw [← List.append_assoc] at hx
  refine hx.bind fun a t' s' _ ⟨e, he, hleaves⟩ => ?_
  have hw := hw a e u' he
  unfold Resumes at hw
  unfold Leaves at hleaves
  rw [← List.append_assoc] at hleaves
  cases hlabel : e.label with
  | none =>
    rw [hlabel] at hw hleaves
    have hw := (hw hρ₁ hK' hw₁).2 hP hM hstays st t' s'
    exact (hw.imp fun _ _ _ ⟨g, hg, h⟩ => ⟨g, hg, h.of_comes hleaves.1 hleaves.2⟩).of_comes
      hleaves.2
  | some l =>
    rw [hlabel] at hw hleaves
    obtain ⟨c, hc, hG⟩ := hw
    rw [hc]
    exact ⟨_, hG, fun hf => (hl'.2 hf).code.referred (hleaves.1 hf), hleaves.2⟩

/-! ### Labels -/

lemma newLabel {f : Label → Lower Unit} (hf : ∀ l, P.Does M (l :: K) ins (f l) m E) :
    P.Does M K ins (newLabel >>= f) m E := by
  intro ρ u ρ' hρ hK h
  obtain ⟨l, ρ₁, hnew, h⟩ := bind_eq_ok_iff.1 h
  obtain ⟨hemits, hlt, hsize, hreach⟩ := newLabel_spec hnew
  have hl : Lowers M.free ρ ρ₁ := hemits.lowers
  obtain ⟨hl', hf⟩ :=
    hf l (hρ.continues hl.1) (List.forall_mem_cons.2 ⟨hlt, fun k hk => hl.label (hK k hk)⟩) h
  refine ⟨hl.trans hl', fun hP hM hstays st t s => ?_⟩
  have hf := hf hP hM hstays st t s
  rw [hsize] at hf
  exact hf.imp fun _ _ _ ⟨e, he, h⟩ => ⟨e, he, h.of_comes (fun _ => hreach.symm.le) (.refl _)⟩

/-- A label behind a computation: control comes there from its end and by the branches to the
label. -/
lemma join {E' : α → Exit → Prop} (hx : P.Does M K ins x m E) (hl : l ∈ K)
    (hE : ∀ a e, E a e → E' a e ∨ e.label = some l ∧ E' a ⟨none, e.stack⟩) :
    P.Does M K ins (x >>= fun _ => join l) m E' := by
  intro ρ u ρ' hρ hK h
  obtain ⟨_, ρ₁, hx₁, hjoin⟩ := bind_eq_ok_iff.1 h
  obtain ⟨hx₀, hx⟩ := hx hρ hK hx₁
  have hemits := join_emits hjoin
  obtain ⟨hpos, hsize, hreach⟩ := join_spec (hx₀.label (hK l hl)) hjoin
  refine ⟨hx₀.trans hemits.lowers, fun hP hM hstays st t s => ?_⟩
  refine (hx hP hM (hemits.continues.toStays.trans hstays) st t s).imp
    fun a t' s' ⟨e, he, hleaves⟩ => ?_
  obtain ⟨label, stack⟩ := e
  unfold Leaves at hleaves
  rcases hE a _ he with hE | ⟨rfl, hE⟩
  · refine ⟨_, hE, ?_⟩
    unfold Leaves
    cases label with
    | none =>
      rw [hsize]
      exact ⟨fun hf hr => hreach (.inl (hleaves.1 hf hr)), hleaves.2⟩
    | some k => exact ⟨fun hf => hemits.code.referred (hleaves.1 hf), hleaves.2⟩
  · obtain ⟨href, q, hq, hleaps⟩ := hleaves
    obtain rfl := Option.some.inj ((hstays.code.position hpos).symm.trans hq)
    refine ⟨_, hE, fun hf _ => hreach (.inr (href hf)), ?_⟩
    rw [hsize]
    exact hleaps.comes

/-! ### Straight code -/

/-- Straight code, by what is given of a performance. -/
lemma of_given (hx : Straight P.env x) (h : P.Staged → M.given → P.Does M K ins x m E) :
    P.Does M K ins x m E := by
  intro ρ u ρ' hρ hK hok
  exact ⟨(Adds.of_straight hx hok).1.lowers, fun hP hM => (h hP hM hρ hK hok).2 hP hM⟩

/-- Straight code, by what its run does. -/
lemma of_straight (hx : Straight P.env x)
    (h : P.Staged → M.given → ∀ ⦃ρ u ρ'⦄, Ready ρ → x P.env ρ = .ok (u, ρ') → Stays ρ' P.lowered →
    ∀ st t s, P.session.Meets M.free (P.spot (ins ++ st) ρ.code.size t s)
    (fun a t' s' => ∃ outs, E a ⟨none, outs⟩ ∧
    P.session.Comes M.free (P.spot (ins ++ st) ρ.code.size t s)
    (P.spot (outs ++ st) ρ'.code.size t' s')) (m t s)) : P.Does M K ins x m E := by
  intro ρ u ρ' hρ _ hok
  obtain ⟨hemits, hreach⟩ := Adds.of_straight hx hok
  refine ⟨hemits.lowers, fun hP hM hstays st t s => ?_⟩
  have hr := hP.ready hρ (hemits.continues.toStays.trans hstays)
  exact (h hP hM hr hok hstays st t s).imp fun a t' s' ⟨outs, hE, hcomes⟩ =>
    ⟨_, hE, fun _ => hreach, hcomes⟩

end Does

/-! ### Values -/

namespace Gives

/-- Code behind code that leaves values on the stack. -/
lemma bind {w : Unit → Lower Unit} (hx : P.Gives M ins x m V) (hV : ∃ a vs, V a vs)
    (hw : ∀ a vs u, V a vs → P.Does M K (vs ++ b) (w u) (k a) G) :
    P.Does M K (ins ++ b) (x >>= w) (m >>= k) G := by
  obtain ⟨a, vs, hV⟩ := hV
  refine (hx.mono (List.nil_subset K)).bind ⟨a, ⟨none, vs⟩, ⟨rfl, hV⟩, rfl⟩ fun a e u he => ?_
  obtain ⟨label, vs⟩ := e
  obtain ⟨rfl, hV⟩ := he
  exact hw a vs u hV

end Gives

lemma Puts.bind [Nonempty α] {w : Unit → Lower Unit} {outs : α → List Value}
    (hx : P.Puts M ins x m outs) (hw : ∀ a u, P.Does M K (outs a ++ b) (w u) (k a) G) :
    P.Does M K (ins ++ b) (x >>= w) (m >>= k) G :=
  Gives.bind hx ⟨Classical.arbitrary α, _, rfl⟩ fun a _ u h => h ▸ hw a u

/-- Code behind code that leaves a value that is known. -/
lemma Puts.seq {w : Unit → Lower Unit} {r : α} {n : Recorded β} {outs : α → List Value}
    (hx : P.Puts M ins x (Pure.pure r) outs) (hw : ∀ u, P.Does M K (outs r ++ b) (w u) n G) :
    P.Does M K (ins ++ b) (x >>= w) n G := by
  have hx : P.Gives M ins x (Pure.pure r) fun _ vs => vs = outs r :=
    hx.imp fun a e ha he => Recorded.returns_pure ha ▸ he
  rw [← pure_bind r fun _ => n]
  exact hx.bind ⟨r, _, rfl⟩ fun _ _ u h => h ▸ hw u

/-! ### Branches -/

namespace Branches

variable {x : Label → Lower Unit} {m : Recorded Bool} {want : Bool}

/-- No branch, on an outcome that is not wanted. -/
lemma never {c : Bool} (hc : c ≠ want) :
    P.Branches M [] (fun _ => Pure.pure ()) (Pure.pure c) want :=
  fun _ => .pure (by rw [if_neg hc])

/-- The outcome by another name. -/
lemma map {f : Bool → Bool} {want' : Bool} (hx : P.Branches M ins x m want)
    (h : ∀ c, f c = want' ↔ c = want) : P.Branches M ins x (f <$> m) want' :=
  fun l => (hx l).fmap fun c e he => by simp only [he, h]

/-- A branch on the opposite. -/
lemma not (hx : P.Branches M ins x m (!want)) : P.Branches M ins x ((fun c => !c) <$> m) want :=
  hx.map fun c => by cases c <;> cases want <;> simp

/-- A branch on whether the outcome is as wanted. -/
lemma of_wanted (hx : P.Branches M ins x ((fun c => c == want) <$> m) true) :
    P.Branches M ins x m want := by
  intro l
  simpa using (hx l).of_fmap

/-- The second part is skipped if the first one decides. -/
lemma both {all : Bool} {l r : Operand} {n : Recorded Bool}
    (hl : ∀ want, P.Branches M [] (l.jump want) m want)
    (hr : ∀ want, P.Branches M [] (r.jump want) n want) (want : Bool) :
    P.Branches M [] (bothJump all l r want) (m.both all n) want := by
  refine fun target => .ite (fun hwant => ?_) fun hwant => ?_
  · subst hwant
    simp only [← bind_assoc]
    refine .newLabel fun skip =>
      .join (l := skip) (E := fun c e => c = (!want) ∧ e = ⟨some skip, []⟩ ∨
      e = ⟨if c = want then some target else none, []⟩)
      (((hl (!want) skip).mono (by simp)).bind (b := [])
        ⟨want, _, rfl, by simp⟩ fun c e _ he => ?_) (by simp) fun c e he => ?_
    · subst he
      by_cases hc : c = want
      · -- The first part does not decide, and the code goes on to the second.
        rw [if_pos hc, if_neg (by simp [hc])]
        exact ((hr want target).mono (by simp)).imp fun _ _ _ => .inr
      · rw [if_pos (Bool.eq_not_of_ne hc), if_neg hc]
        exact ⟨!want, rfl, .inl ⟨rfl, rfl⟩⟩
    · rcases he with ⟨rfl, rfl⟩ | rfl
      · exact .inr ⟨rfl, by simp⟩
      · exact .inl rfl
  · obtain rfl : want = !all := by cases all <;> cases want <;> simp_all
    refine (hl (!all) target).bind (b := []) ⟨all, _, rfl, by simp⟩ fun c e _ he => ?_
    subst he
    by_cases hc : c = all
    · rw [if_pos hc, if_neg (by simp [hc])]
      exact hr _ target
    · rw [if_pos (Bool.eq_not_of_ne hc), if_neg hc]
      exact ⟨!all, rfl, by simp⟩

end Branches

/-! ### Calls and answers -/

/-- Calls are answered, and the constants of the method are in its pool. -/
def answered (P : Performance) : Mode := ⟨false, P.session.routine.pool.overflowed = false⟩

lemma Performs.puts {outs : α → List Value} (h : P.Performs ins x m outs) :
    P.Puts P.answered ins x m outs := by
  intro ρ u ρ' hρ _ hok
  obtain ⟨hc, hdoes⟩ := h hρ hok
  refine ⟨⟨hc, nofun⟩, fun _ _ hstays st t s => ?_⟩
  have hdoes := hdoes hstays st t s
  generalize m t s = r at hdoes ⊢
  obtain ⟨⟨e | a, t'⟩, s'⟩ := r
  · exact fun hv => Session.halts_false.2 (hdoes hv)
  · refine ⟨⟨none, outs a⟩, ⟨rfl, rfl⟩, nofun, fun hv => ?_⟩
    obtain ⟨q, hq, hrun⟩ := hdoes hv
    obtain rfl := Option.some.inj hq
    rw [answered, Session.treads_false]
    exact hrun

/-- What the code of a term does in a session. -/
lemma Does.session {goal : α → Option Nat × List Value} {u : Unit}
    (hx : P.Does P.answered K ins x m E) (hP : P.Staged)
    (hfits : P.session.routine.pool.overflowed = false) (hρ : Standing P.scopes ρ)
    (hK : ∀ l ∈ K, l.id < ρ.code.labels.size) (hok : x P.env ρ = .ok (u, ρ'))
    (hstays : Stays ρ' P.lowered) (hgoal : ∀ a e, E a e → goal a =
    (e.label.elim (some ρ'.code.size) P.lowered.code.position?, e.stack ++ st)) :
    P.session.Does ρ.code.size (ins ++ st) m goal := by
  intro t s hv
  have h := (hx hρ hK hok).2 hP hfits hstays st t s
  generalize m t s = r at h ⊢
  obtain ⟨⟨e | a, t'⟩, s'⟩ := r
  · exact Session.halts_false.1 (h hv)
  · obtain ⟨⟨label, stack⟩, hE, hleaves⟩ := h
    dsimp only
    rw [hgoal a _ hE, ← Session.treads_false]
    cases label with
    | none => exact ⟨_, rfl, hleaves.2 hv⟩
    | some l =>
      obtain ⟨-, q, hq, hleaps⟩ := hleaves
      exact ⟨q, hq, (hleaps hv).to_reflTransGen⟩

namespace Tells

variable {x : Lower α} {Q : α → Prop}

lemma pure {r : α} (h : Q r) : P.Tells (pure r) Q := by
  intro ρ r' ρ' _ hok
  obtain ⟨rfl, rfl⟩ := pure_eq_ok_iff.1 hok
  exact ⟨rfl, h⟩

lemma bind {f : α → Lower β} {R : β → Prop} (hx : P.Tells x Q) (hf : ∀ r, Q r → P.Tells (f r) R) :
    P.Tells (x >>= f) R := by
  intro ρ r ρ' hρ h
  obtain ⟨a, ρ₁, hx₁, hf₁⟩ := bind_eq_ok_iff.1 h
  obtain ⟨rfl, hQ⟩ := hx hρ hx₁
  exact hf a hQ hρ hf₁

lemma ite {p : Prop} [Decidable p] {y : Lower α} (hx : p → P.Tells x Q) (hy : ¬ p → P.Tells y Q) :
    P.Tells (if p then x else y) Q := by
  split
  · next h => exact hx h
  · next h => exact hy h

lemma throw (e : Stop) : P.Tells (throw e) Q := fun _ _ _ _ h => absurd h throw_ne_ok

lemma decided (r : Option α) : P.Tells (decided r) fun a => r = some a := by
  cases r with
  | some a => exact pure rfl
  | none => exact throw _

lemma sound (r : Except Misuse α) : P.Tells (sound r) fun a => r = .ok a := by
  intro ρ a ρ' _ h
  obtain ⟨hr, rfl⟩ := sound_eq_ok_iff.1 h
  exact ⟨rfl, hr⟩

lemma read : P.Tells (read : Lower Env) fun e => e = P.env := by
  intro ρ e ρ' _ h
  obtain ⟨rfl, rfl⟩ := read_eq_ok_iff.1 h
  exact ⟨rfl, rfl⟩

lemma type (o : Operand) : P.Tells o.type fun ty => o.term.type = .ok ty := sound _

lemma param? (name : String) :
    P.Tells (param? name) fun l => l = P.env.params.find? (·.name == name) :=
  read.bind fun _ hr => pure (by rw [hr])

lemma lookup? (name : String) :
    P.Tells (lookup? name) fun l => l = ((P.scopes.flatMap (·.vars)).find? (·.name == name)).or
    (P.env.params.find? (·.name == name)) := by
  intro ρ r ρ' hρ h
  obtain ⟨rfl, hr⟩ := lookup?_eq_ok h
  rw [visible, hρ] at hr
  exact ⟨rfl, hr⟩

lemma found {find : Lower (Option Local)} {l : Option Local} (h : P.Tells find fun r => r = l)
    (missing : Unresolved) : P.Tells (found find missing) fun v => l = some v := by
  intro ρ v ρ' hρ hok
  obtain ⟨rfl, hv⟩ := h hρ (found_eq_ok hok)
  exact ⟨rfl, hv.symm⟩

end Tells

end Performance

end Lowering

end Classwright
