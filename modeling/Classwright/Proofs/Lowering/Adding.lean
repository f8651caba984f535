import Classwright.Proofs.Lowering.Straight

/-!
Computations that only add code.

Straight code is added at the end of what was emitted before, and control that comes to its start
may come to its end (`Adds`).
-/

namespace Classwright.Lowering

variable {α β : Type} {env : Env} {σ σ' : State} {a : Action} {l : Label}

/-- Lowering that only adds code and constants, and does not end a block. -/
def Adds (env : Env) (x : Lower α) : Prop :=
  ∀ ⦃σ r σ'⦄, x env σ = .ok (r, σ') → Emits σ σ' ∧ (σ.code.reachable → σ'.code.reachable)

/-- What is found is passed on. -/
lemma found_eq_ok {find : Lower (Option Local)} {missing : Unresolved} {l : Local}
    (h : found find missing env σ = .ok (l, σ')) : find env σ = .ok (some l, σ') := by
  obtain ⟨r, τ, hf, h⟩ := bind_eq_ok_iff.1 h
  cases r with
  | none => exact absurd h fail_ne_ok
  | some l' =>
    obtain ⟨rfl, rfl⟩ := pure_eq_ok_iff.1 h
    exact hf

namespace Adds

variable {x : Lower α} {f : α → Lower β}

lemma bind (hx : Adds env x) (hf : ∀ r, Adds env (f r)) : Adds env (x >>= f) := by
  intro σ b σ' h
  obtain ⟨r, τ, hxτ, hfτ⟩ := bind_eq_ok_iff.1 h
  obtain ⟨hx, hrx⟩ := hx hxτ
  obtain ⟨hf, hrf⟩ := hf r hfτ
  exact ⟨hx.trans hf, fun hr => hrf (hrx hr)⟩

lemma placed (place : String) (hx : Adds env x) : Adds env (placed place x) :=
  fun _ _ _ h => hx (placed_eq_ok_iff.1 h)

/-! ### Instructions and constants -/

/-- Straight code has no way out of it. -/
lemma of_straight (hx : Straight env x) : Adds env x := by
  induction hx with
  | pure r =>
    intro σ _ σ' h
    obtain ⟨-, rfl⟩ := pure_eq_ok_iff.1 h
    exact ⟨.refl σ, id⟩
  | read =>
    intro σ _ σ' h
    obtain ⟨-, rfl⟩ := read_eq_ok_iff.1 h
    exact ⟨.refl σ, id⟩
  | get =>
    intro σ _ σ' h
    obtain ⟨-, rfl⟩ := get_eq_ok_iff.1 h
    exact ⟨.refl σ, id⟩
  | throw e => exact fun _ _ _ h => absurd h throw_ne_ok
  | bind _ _ ihx ihf => exact ihx.bind ihf
  | placed place _ ih => exact ih.placed place
  | single hx hf =>
    intro σ _ σ' h
    obtain ⟨d, hd, rfl⟩ := hx.emission h
    exact ⟨hx.emits h, fun hr => by rw [Code.reachable_emission hd, hr, hf]; rfl⟩
  | pooling hm =>
    intro σ _ σ' h
    obtain ⟨-, rfl⟩ := pooling_eq_ok_iff.1 h
    exact ⟨⟨rfl, .refl _, rfl, fun hp => (hm hp).1, fun hp => (hm hp).2⟩, id⟩

/-- Constants alone add no code. -/
lemma pooling {m : PoolM α} (hm : Pool.Adds m) : Adds env (pooling m) := of_straight (.pooling hm)

lemma load (l : Local) : Adds env (load l) := of_straight (.load l)

lemma store (l : Local) : Adds env (store l) := of_straight (.store l)

end Adds

/-! ### Branches -/

lemma Emits.label (h : Emits σ σ') (hl : l.id < σ.code.labels.size) :
    l.id < σ'.code.labels.size := hl.trans_le h.code.labels

lemma newLabel_lt (h : newLabel env σ = .ok (l, σ')) : l.id < σ'.code.labels.size := by
  obtain ⟨rfl, rfl⟩ := newLabel_eq_ok h
  exact Code.newLabel_lt

/-- A branch has its label referred to. -/
lemma referred_of_branch {u : Unit} (hl : l.id < σ.code.labels.size)
    (h : branch a l env σ = .ok (u, σ')) : σ'.code.Referred l := by
  rw [branch_eq_ok h]
  exact Code.referred_branched hl

end Classwright.Lowering
