import Classwright.Proofs.Lowering.Tidiness

/-!
Lowering in the course of other lowering.

What is lowered is assembled on to the code before it (`Grows`). Something that is lowered in the
course of that has code assembled before it, and more is assembled after it (`Amid`). The judgement
`Embeds` says of a computation that it keeps to itself, and that something is lowered in its course
if a condition holds. The condition is carried along, so that one rule for each way to put
computations together serves for all parts.
-/

namespace Classwright

namespace Code

variable {b : Limits} {c d t : Code} {x y : Code × Set Nat}

/-- Code that is assembled on to other code. -/
def Assembles (c d : Code) : Prop := Runs {} (c, Set.univ) (d, Set.univ)

namespace Assembles

lemma refl (c : Code) : c.Assembles c := Relation.ReflTransGen.refl

lemma trans (h : c.Assembles d) (h' : d.Assembles t) : c.Assembles t :=
  Relation.ReflTransGen.trans h h'

lemma advances (h : c.Assembles d) : Advances {} (c, Set.univ) (d, Set.univ) := Runs.advances h

lemma keeps (h : c.Assembles d) : c.Extends d := h.advances.keeps

end Assembles

/-- Control may come to all offsets if it may come to all before. -/
lemma Runs.live_eq_univ (h : Runs b x y) (hx : x.2 = Set.univ) : y.2 = Set.univ := by
  induction h with
  | refl => exact hx
  | tail _ hstep ih =>
    cases hstep with
    | emission => exact Set.eq_univ_of_forall fun q => .inl (Set.eq_univ_iff_forall.1 ih q)
    | _ => exact ih

/-- Limits can be left out. -/
lemma Runs.assembles (h : Runs b (c, Set.univ) y) : c.Assembles y.1 := by
  obtain ⟨d, live⟩ := y
  obtain rfl := h.live_eq_univ rfl
  exact h.mono ⟨Nat.zero_le _, Nat.zero_le _, fun _ _ => .inl trivial⟩

end Code

namespace Lowering

variable {α β γ δ : Type} {env : Env} {σ σ' σ₁ τ τ' : State} {T E E' A A' X X' : Set Label}
  {l : Label} {u : Unit} {P : State → State → Prop} {p q : Prop}

/-! ### States that are assembled -/

/-- What is lowered between two states is assembled. -/
structure Grows (σ σ' : State) : Prop where
  code : σ.code.Assembles σ'.code
  yields : σ'.yields = σ.yields
  supply : Supplies σ σ'

lemma Within.assembles (w : Within T E A σ τ) : σ.code.Assembles τ.code := by
  obtain ⟨live, hrun, -⟩ := w.runs _ (rooted_univ T _)
  exact hrun.assembles

namespace Grows

lemma trans (h : Grows σ τ) (h' : Grows τ σ') : Grows σ σ' :=
  ⟨h.code.trans h'.code, h'.yields.trans h.yields, h.supply.trans h'.supply⟩

lemma of_lays (w : Lays T E A σ τ) : Grows σ τ := ⟨w.assembles, w.yields, w.supply⟩

lemma of_tidy {x : Lower α} {r : α} (hx : Tidy env X x)
    (hk : ∀ l ∈ X ∪ σ.stops, l.id < σ.code.labels.size) (h : x env σ = .ok (r, σ')) :
    Grows σ σ' := by
  obtain ⟨w, hy⟩ := hx _ _ _ hk h
  exact ⟨w.assembles, hy, w.supply⟩

/-- One step of the assembler. -/
lemma of_step {b : Limits} (h : ∀ live, Code.Step b (σ.code, live) (τ.code, live))
    (hy : τ.yields = σ.yields) (hs : Supplies σ τ) : Grows σ τ :=
  ⟨Code.Runs.assembles (.single (h Set.univ)), hy, hs⟩

lemma newLabel (h : newLabel env σ = .ok (l, τ)) : Grows σ τ := by
  obtain ⟨rfl, rfl⟩ := newLabel_eq_ok h
  exact of_step (b := {}) (fun live => .newLabel (Nat.zero_le _)) rfl (.of_eq rfl rfl)

lemma join (hl : l.id < σ.code.labels.size) (h : join l env σ = .ok (u, τ)) : Grows σ τ := by
  obtain ⟨c, hc, rfl⟩ := onCode?_eq_ok_iff.1 h
  exact of_step (b := {}) (fun live => .join hl (Nat.zero_le _) hc) rfl (.of_eq rfl rfl)

lemma mark (hl : l.id < σ.code.labels.size) (h : mark l env σ = .ok (u, τ)) : Grows σ τ := by
  obtain ⟨c, hc, rfl⟩ := onCode?_eq_ok_iff.1 h
  exact of_step (b := {}) (fun live => .mark hl (Nat.zero_le _) hc) rfl (.of_eq rfl rfl)

/-- A label that is not resolved was not before. -/
lemma position?_eq_none (h : Grows σ σ') (hl : σ'.code.position? l = none) :
    σ.code.position? l = none := by
  cases hp : σ.code.position? l with
  | none => rfl
  | some p => simp [h.code.keeps.position hp] at hl

end Grows

/-- What is lowered from `τ` to `τ'` in the course of what is lowered from `σ` to `σ'`. Blocks
around that end behind the whole end behind the part. -/
structure Amid (σ σ' τ τ' : State) : Prop where
  before : σ.code.Assembles τ.code
  known : ∀ l ∈ τ.stops, l.id < τ.code.labels.size
  waits : (∀ l ∈ σ.stops, σ'.code.position? l = none) → ∀ l ∈ τ.stops, τ'.code.position? l = none
  after : τ'.code.Assembles σ'.code
  supplied : Supplies σ τ
  supplies : Supplies τ' σ'

namespace Amid

lemma left (h : Amid σ σ₁ τ τ') (h' : Grows σ₁ σ') : Amid σ σ' τ τ' where
  before := h.before
  known := h.known
  waits hw := h.waits fun l hl => h'.position?_eq_none (hw l hl)
  after := h.after.trans h'.code
  supplied := h.supplied
  supplies := h.supplies.trans h'.supply

lemma right (h' : Grows σ σ₁) (h : Amid σ₁ σ' τ τ') : Amid σ σ' τ τ' where
  before := h'.code.trans h.before
  known := h.known
  waits := State.stops_eq h'.yields ▸ h.waits
  after := h.after
  supplied := h'.supply.trans h.supplied
  supplies := h.supplies

end Amid

/-! ### Computations -/

/-- What is lowered from a state on. If `p` holds, something that `P` holds of is lowered in the
course of it. -/
structure Laid (P : State → State → Prop) (p : Prop) (T E A : Set Label) (σ τ : State) : Prop
    extends Lays T E A σ τ where
  amid : p → ∃ ρ ρ', P ρ ρ' ∧ Amid σ τ ρ ρ'

/-- Lowering that keeps to itself. If `p` holds, something that `P` holds of is lowered in its
course. -/
def Embeds (env : Env) (P : State → State → Prop) (p : Prop) (X : Set Label) (x : Lower α) : Prop :=
  ∀ σ r σ', (∀ l ∈ X ∪ σ.stops, l.id < σ.code.labels.size) → x env σ = .ok (r, σ') →
    Laid P p (X ∪ σ.stops) ∅ ∅ σ σ'

lemma Embeds.tidy {x : Lower α} (h : Embeds env P p X x) : Tidy env X x := fun σ r σ' hk hx =>
  ⟨(h σ r σ' hk hx).toWithin, (h σ r σ' hk hx).yields⟩

lemma Tidy.embeds {x : Lower α} (h : Tidy env X x) : Embeds env P False X x := by
  intro σ r σ' hk hx
  obtain ⟨w, hy⟩ := h σ r σ' hk hx
  exact ⟨⟨w, Set.subset_union_right, hy⟩, False.elim⟩

namespace Laid

lemma of_lays (w : Lays T E A σ τ) : Laid P False T E A σ τ := ⟨w, False.elim⟩

lemma refl (hT : ∀ l ∈ X ∪ σ.stops, l.id < σ.code.labels.size) :
    Laid P False (X ∪ σ.stops) ∅ ∅ σ σ :=
  of_lays (.refl hT)

variable (w : Laid P p T E A σ τ)

include w

lemma imp (hq : q → p) : Laid P q T E A σ τ := ⟨w.toLays, fun h => w.amid (hq h)⟩

/-- More that is assembled, in which nothing is looked for. -/
lemma grow (w' : Lays T E' A' σ τ') (h : Grows τ τ') : Laid P p T E' A' σ τ' := by
  refine ⟨w', fun hp => ?_⟩
  obtain ⟨ρ, ρ', hP, ha⟩ := w.amid hp
  exact ⟨ρ, ρ', hP, ha.left h⟩

lemma join (hl : l ∈ E) (h : join l env τ = .ok (u, τ')) : Laid P p T (E \ {l}) A σ τ' :=
  w.grow (w.toLays.join hl h) (.join (w.waiting l hl).2.1 h)

/-- All labels are resolved. -/
lemma close (hE : ∀ l, l ∉ E) (hq : q → p) : Laid P q T ∅ ∅ σ τ :=
  ⟨⟨(w.toLays.close hE).1, w.stops, w.yields⟩, (w.imp hq).amid⟩

lemma lt_of_stop (hl : l ∈ τ.stops) : l.id < τ.code.labels.size :=
  w.lt_of_mem (.inl (w.stops (State.stops_eq w.yields ▸ hl)))

/-- What is looked for is found where nothing is lowered. -/
lemma found (hP : q → P τ τ) : Laid P (p ∨ q) T E A σ τ := by
  refine ⟨w.toLays, fun hpq => hpq.elim w.amid fun hq =>
    ⟨τ, τ, hP hq, .right (.of_lays w.toLays) ?_⟩⟩
  exact ⟨.refl _, fun l hl => w.lt_of_stop hl, id, .refl _, .refl τ, .refl τ⟩

section

variable {x : Lower α} {r : α}

/-- A computation that is given labels which are in hand. -/
lemma embed (hx : Embeds env P q X x) (h : x env τ = .ok (r, τ'))
    (hX : ∀ l ∈ X, l ∈ T ∨ l ∈ E ∨ l ∈ A) : Laid P (p ∨ q) T E A σ τ' := by
  obtain ⟨-, w'⟩ := w.toLays.within hx.tidy h hX
  have hk (l : Label) (hl : l ∈ X ∪ τ.stops) : l.id < τ.code.labels.size := by
    exact hl.elim (fun hl => w.lt_of_mem (hX l hl)) w.lt_of_stop
  have hτ := hx _ _ _ hk h
  refine ⟨w', fun hpq => ?_⟩
  rcases hpq with hp | hq
  · exact (w.grow w' (.of_lays hτ.toLays)).amid hp
  · obtain ⟨ρ, ρ', hP, ha⟩ := hτ.amid hq
    exact ⟨ρ, ρ', hP, .right (.of_lays w.toLays) ha⟩

lemma run (hx : Tidy env X x) (h : x env τ = .ok (r, τ')) (hX : ∀ l ∈ X, l ∈ T ∨ l ∈ E ∨ l ∈ A) :
    Laid P p T E A σ τ' := (w.embed hx.embeds h hX).imp .inl

end

/-! The same for what comes first and is followed by more. -/

section

variable {x : Lower α} {f : α → Lower β} {g : Label → Lower β} {k : Unit → Lower β} {b : β}

lemma embed_bind (hx : Embeds env P q X x) (hX : ∀ l ∈ X, l ∈ T ∨ l ∈ E ∨ l ∈ A)
    (h : (x >>= f) env τ = .ok (b, τ')) :
    ∃ r τ₁, Laid P (p ∨ q) T E A σ τ₁ ∧ f r env τ₁ = .ok (b, τ') := by
  obtain ⟨r, τ₁, hx', h⟩ := bind_eq_ok_iff.1 h
  exact ⟨r, τ₁, w.embed hx hx' hX, h⟩

lemma run_bind (hx : Tidy env X x) (hX : ∀ l ∈ X, l ∈ T ∨ l ∈ E ∨ l ∈ A)
    (h : (x >>= f) env τ = .ok (b, τ')) :
    ∃ r τ₁, Laid P p T E A σ τ₁ ∧ f r env τ₁ = .ok (b, τ') := by
  obtain ⟨r, τ₁, hx', h⟩ := bind_eq_ok_iff.1 h
  exact ⟨r, τ₁, w.run hx hx' hX, h⟩

/-- What needs none of the labels. -/
lemma next_bind (hx : Tidy env ∅ x) (h : (x >>= f) env τ = .ok (b, τ')) :
    ∃ r τ₁, Laid P p T E A σ τ₁ ∧ f r env τ₁ = .ok (b, τ') := w.run_bind hx (by simp) h

lemma newLabel_bind (h : (newLabel >>= g) env τ = .ok (b, τ')) :
    ∃ l τ₁, l ∉ E ∧ Laid P p T (insert l E) A σ τ₁ ∧ g l env τ₁ = .ok (b, τ') := by
  obtain ⟨l, τ₁, hl, h⟩ := bind_eq_ok_iff.1 h
  obtain ⟨w', hnew⟩ := w.toLays.newLabel hl
  exact ⟨l, τ₁, hnew, w.grow w' (.newLabel hl), h⟩

lemma join_bind (hl : l ∈ E) (h : (Lowering.join l >>= k) env τ = .ok (b, τ')) :
    ∃ τ₁, Laid P p T (E \ {l}) A σ τ₁ ∧ k () env τ₁ = .ok (b, τ') := by
  obtain ⟨_, τ₁, hj, h⟩ := bind_eq_ok_iff.1 h
  exact ⟨τ₁, w.join hl hj, h⟩

lemma mark_bind (hl : l ∈ E) (h : (mark l >>= k) env τ = .ok (b, τ')) :
    ∃ τ₁, Laid P p T (E \ {l}) (insert l A) σ τ₁ ∧ k () env τ₁ = .ok (b, τ') := by
  obtain ⟨_, τ₁, hm, h⟩ := bind_eq_ok_iff.1 h
  exact ⟨τ₁, w.grow (w.toLays.mark hl hm) (.mark (w.waiting l hl).2.1 hm), h⟩

end

end Laid

/-- Things in a row, of which one has what is looked for if the condition holds. -/
inductive Along (R : Prop → γ → Prop) : Prop → List γ → Prop
  | nil {p : Prop} (h : ¬ p) : Along R p []
  | cons {p q r : Prop} {y : γ} {ys : List γ} (head : R p y) (tail : Along R q ys) (h : r → p ∨ q) :
      Along R r (y :: ys)

namespace Along

variable {R R' : Prop → γ → Prop} {S : Prop → δ → Prop} {ys : List γ}

lemma weaken {q : Prop} (h : Along R p ys) (hq : q → p) : Along R q ys := by
  cases h with
  | nil h => exact .nil (h ∘ hq)
  | cons head tail h => exact .cons head tail (h ∘ hq)

lemma of_forall (h : ∀ y ∈ ys, R False y) : Along R False ys := by
  induction ys with
  | nil => exact .nil id
  | cons y ys ih =>
    exact .cons (h y List.mem_cons_self) (ih fun z hz => h z (List.mem_cons_of_mem y hz)) .inl

lemma forall_mem {Q : γ → Prop} (h : Along R p ys) (hQ : ∀ {p y}, R p y → Q y) : ∀ y ∈ ys, Q y := by
  induction h with
  | nil => simp
  | cons hy _ _ ih => simpa using ⟨hQ hy, ih⟩

lemma imp (h : Along R p ys) (hR : ∀ {p y}, R p y → R' p y) : Along R' p ys := by
  induction h with
  | nil h => exact .nil h
  | cons hy _ h ih => exact .cons (hR hy) ih h

lemma map {f : γ → δ} (h : Along R p ys) (hf : ∀ {p y}, R p y → S p (f y)) :
    Along S p (ys.map f) := by
  induction h with
  | nil h => exact .nil h
  | cons hy _ h ih => exact .cons (hf hy) ih h

lemma of_map {f : δ → γ} {zs : List δ} (h : Along R p (zs.map f)) :
    Along (fun p z => R p (f z)) p zs := by
  induction zs generalizing p with
  | nil =>
    cases h with
    | nil h => exact .nil h
  | cons z zs ih =>
    cases h with
    | cons hy h' h => exact .cons hy (ih h') h

end Along

namespace Embeds

variable {x : Lower α} {f : α → Lower β}

lemma imp (h : Embeds env P p X x) (hq : q → p) : Embeds env P q X x :=
  fun σ r σ' hk hx => (h σ r σ' hk hx).imp hq

/-- More may be found. -/
lemma mono_of {Q : State → State → Prop} (h : Embeds env P p X x)
    (hPQ : ∀ {σ σ'}, P σ σ' → Q σ σ') : Embeds env Q p X x := by
  intro σ r σ' hk hx
  have w := h σ r σ' hk hx
  refine ⟨w.toLays, fun hp => ?_⟩
  obtain ⟨ρ, ρ', hP, ha⟩ := w.amid hp
  exact ⟨ρ, ρ', hPQ hP, ha⟩

/-- All of the computation, or something in its course. -/
lemma self (h : Embeds env P p X x) (hP : q → ∀ {σ r σ'}, x env σ = .ok (r, σ') → P σ σ') :
    Embeds env P (q ∨ p) X x := by
  intro σ r σ' hk hx
  have w := h σ r σ' hk hx
  refine ⟨w.toLays, fun hqp => hqp.elim (fun hq => ?_) w.amid⟩
  exact ⟨σ, σ', hP hq hx, .refl _, fun l hl => hk l (.inr hl), fun hw => hw, .refl _, .refl σ,
    .refl σ'⟩

lemma mono (h : Embeds env P p X x) (hX : X ⊆ X') : Embeds env P p X' x := by
  intro σ r σ' hk hx
  have w := h _ _ _ (fun l hl => hk l (Set.union_subset_union_left _ hX hl)) hx
  exact ⟨⟨w.mono (Set.union_subset_union_left _ hX) hk, Set.subset_union_right, w.yields⟩, w.amid⟩

lemma weaken (h : Embeds env P p ∅ x) : Embeds env P p X x := h.mono (Set.empty_subset X)

lemma bind (hx : Embeds env P p X x) (hf : ∀ r, Embeds env P q X (f r)) :
    Embeds env P (p ∨ q) X (x >>= f) := by
  intro σ r σ' hk h
  obtain ⟨s, τ, w, h⟩ := (Laid.refl hk).embed_bind hx (fun l hl => .inl (.inl hl)) h
  exact (w.embed (hf s) h fun l hl => .inl (.inl hl)).close (Set.notMem_empty ·) (Or.imp_left .inr)

lemma before (hx : Embeds env P p X x) (hf : ∀ r, Tidy env X (f r)) : Embeds env P p X (x >>= f) :=
  (bind hx fun r => (hf r).embeds).imp .inl

lemma after (hx : Tidy env X x) (hf : ∀ r, Embeds env P p X (f r)) : Embeds env P p X (x >>= f) :=
  (bind hx.embeds hf).imp .inr

lemma placed (place : String) (hx : Embeds env P p X x) : Embeds env P p X (placed place x) :=
  fun _ _ _ hk h => hx _ _ _ hk (placed_eq_ok_iff.1 h)

lemma ite {c : Prop} [Decidable c] {y : Lower α} (hx : c → Embeds env P p X x)
    (hy : ¬ c → Embeds env P p X y) : Embeds env P p X (if c then x else y) := by
  split
  · next hc => exact hx hc
  · next hc => exact hy hc

lemma throw (e : Stop) : Embeds env P p X (throw e : Lower α) :=
  fun _ _ _ _ h => absurd h throw_ne_ok

lemma fail (c : Cause) : Embeds env P p X (fail c : Lower α) := throw _

lemma mismatch (m : Mismatch) : Embeds env P p X (mismatch m : Lower α) := throw _

/-- A condition on which lowering fails. -/
lemma orFail {c : Prop} [Decidable c] {e : Stop} {y : Lower β} (hy : Embeds env P p X y) :
    Embeds env P p X (if c then (MonadExcept.throw e : Lower α) >>= f else y) :=
  ite (fun _ => throw e) fun _ => hy

lemma inScope {x : Lower Unit} (hx : Embeds env P p X x) : Embeds env P p X (inScope x) :=
  after .pushScope fun _ => before hx fun _ => .popScope

/-- Several things in a row. -/
lemma forM {ys : List γ} {f : γ → Lower Unit} (h : Along (fun p y => Embeds env P p X (f y)) p ys) :
    Embeds env P p X (ys.forM f) := by
  induction h with
  | nil h => exact (Tidy.pure ()).embeds.imp h
  | cons hy _ h ih => exact (bind hy fun _ => ih).imp h

end Embeds

end Lowering

end Classwright
