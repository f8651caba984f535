import Classwright.Proofs.Lowering.Protection

/-!
Blocks and control keep to themselves.

The value of a block is returned behind it, from wherever in the block. A test goes to a label that
is resolved behind what is lowered under it, or back to the top of a loop.
-/

namespace Classwright.Lowering

variable {α : Type} {env : Env} {σ τ τ' : State} {T E A X : Set Label} {l : Label}
  {P : State → State → Prop} {p q s : Prop}

/-! ### Blocks with a value -/

/-- In a block with a value, returns go to a label that waits to be resolved. -/
lemma Laid.yielding {x : Lower α} {r : α} {ty : Ty} (w : Laid P p T E A σ τ) (hl : l ∈ E)
    (hx : Embeds env P q ∅ x) (h : x env { τ with yields := ⟨ty, l⟩ :: τ.yields } = .ok (r, τ')) :
    Laid P (p ∨ q) T E A σ { τ' with yields := τ'.yields.drop 1 } := by
  have hstops (k : Label) (hk : k ∈ ({ τ with yields := ⟨ty, l⟩ :: τ.yields } : State).stops) :
      k ∈ σ.stops ∨ k = l := by
    obtain ⟨y, hy, rfl⟩ := hk
    rcases List.mem_cons.1 hy with rfl | hy
    · exact .inr rfl
    · exact .inl ⟨y, w.yields ▸ hy, rfl⟩
  have hmem (k : Label) (hk : k ∈ ∅ ∪ ({ τ with yields := ⟨ty, l⟩ :: τ.yields } : State).stops) :
      k ∈ T ∨ k ∈ E ∨ k ∈ A := by
    rcases hstops k (hk.resolve_left (Set.notMem_empty k)) with hk | rfl
    · exact .inl (w.stops hk)
    · exact .inr (.inl hl)
  have wτ : Within T E A σ { τ with yields := ⟨ty, l⟩ :: τ.yields } :=
    w.congr rfl rfl (.of_eq rfl rfl)
  have w' := hx _ _ _ (fun k hk => wτ.lt_of_mem (hmem k hk)) h
  have wσ : Within T E A σ τ' := wτ.trans w'.toWithin hmem
  have hy : τ'.yields.drop 1 = τ.yields := by rw [w'.yields]; rfl
  refine ⟨⟨wσ.congr rfl rfl (.of_eq rfl rfl), w.stops, hy.trans w.yields⟩, fun hpq => ?_⟩
  rcases hpq with hp | hq
  · obtain ⟨ρ, ρ', hP, ha⟩ := w.amid hp
    exact ⟨ρ, ρ', hP, ha.left ⟨w'.assembles, hy, w'.supply.coherent, w'.supply.pool,
      w'.supply.locals⟩⟩
  · obtain ⟨ρ, ρ', hP, ha⟩ := w'.amid hq
    refine ⟨ρ, ρ', hP, wτ.assembles.trans ha.before, ha.known, fun hw => ha.waits fun k hk => ?_,
      ha.after, wτ.supply.trans ha.supplied, ha.supplies.coherent, ha.supplies.pool,
      ha.supplies.locals⟩
    rcases hstops k hk with hk | rfl
    · exact hw k hk
    · exact (wσ.waiting k hl).2.2

namespace Embeds

variable {test : Operand} {x y : Lower Unit}

lemma yieldValue (ty : Ty) (hx : Embeds env P p ∅ x) : Embeds env P p X (yieldValue ty x) := by
  intro σ u σ' hk h
  obtain ⟨stop, σ₁, -, w, h⟩ := (Laid.refl hk).newLabel_bind h
  obtain ⟨_, σ₂, h₂, h⟩ := bind_eq_ok_iff.1 h
  obtain rfl := modify_eq_ok_iff.1 h₂
  obtain ⟨_, σ₃, h₃, h⟩ := bind_eq_ok_iff.1 h
  obtain ⟨_, σ₄, h₄, h⟩ := bind_eq_ok_iff.1 h
  obtain rfl := modify_eq_ok_iff.1 h₄
  have w := w.yielding (Set.mem_insert stop ∅) (inScope hx) h₃
  obtain ⟨_, σ₅, w, h⟩ := w.next_bind .reachable h
  obtain ⟨-, h⟩ := unless_eq_ok h
  exact (w.join (Set.mem_insert _ _) h).close (by simp) .inr

/-! ### Control -/

lemma define (name : String) (ty : Ty) {value : Operand} (hv : value.Embeds env P p) :
    Embeds env P p X (define name ty value) := by
  have htail (ty : Ty) : Embeds env P p X (do
      if (← lookup? name).isSome then Lowering.fail (.duplicateName name)
      if !value.term.isAbsent then value.as ty
      let l ← declare name ty
      if !value.term.isAbsent then store l) := by
    have hrest : Tidy env X (declare name ty >>= fun l =>
        if !value.term.isAbsent then store l else Pure.pure ()) :=
      .bind (.declare name ty) fun l => .ite (.store l) (.pure _)
    refine after (.of_straight (.lookup? name)) fun _ =>
      orFail (ite (fun _ => before (hv.as ty) fun _ => hrest) fun h =>
      hrest.embeds.imp (hv.not_of_isAbsent (by simpa using h)))
  unfold Lowering.define
  cases ty with
  | absent => exact ite (fun _ => after (.type value) htail) fun _ => htail _
  | _ => exact htail _

section

variable (ht : test.Embeds env P p) (hx : Embeds env P q ∅ x)

include ht hx

lemma whenTrue : Embeds env P (p ∨ q) X (whenTrue test x) := by
  intro σ u σ' hk h
  obtain ⟨skip, σ₁, -, w, h⟩ := (Laid.refl hk).newLabel_bind h
  obtain ⟨_, σ₂, w, h⟩ := w.embed_bind (ht.jump (Set.mem_singleton skip)) (by simp) h
  obtain ⟨_, σ₃, w, h⟩ := w.embed_bind (inScope hx) (by simp) h
  exact (w.join (Set.mem_insert _ _) h).close (by simp) (Or.imp_left .inr)

lemma choose (hy : Embeds env P s ∅ y) : Embeds env P (p ∨ q ∨ s) X (choose test x y) := by
  intro σ u σ' hk h
  obtain ⟨other, σ₁, -, w, h⟩ := (Laid.refl hk).newLabel_bind h
  obtain ⟨stop, σ₂, hstop, w, h⟩ := w.newLabel_bind h
  obtain ⟨_, σ₃, w, h⟩ := w.embed_bind (ht.jump (Set.mem_singleton other)) (by simp) h
  obtain ⟨_, σ₄, w, h⟩ := w.embed_bind (inScope hx) (by simp) h
  obtain ⟨_, σ₅, w, h⟩ := w.next_bind .reachable h
  obtain ⟨σ₆, w, h⟩ := Laid.when_bind rfl (fun _ => w)
    (fun _ _ h => w.run (.branch (Set.mem_singleton stop)) h (by simp)) h
  obtain ⟨σ₇, w, h⟩ := w.join_bind (by simp) h
  obtain ⟨_, σ₈, w, h⟩ := w.embed_bind (inScope hy) (by simp) h
  exact (w.join (by grind) h).close (by grind) (by simp [or_assoc])

/-- Control comes to the top of a loop, so that the test may go back there. -/
lemma loop : Embeds env P (p ∨ q) X (loop test x) := by
  intro σ u σ' hk h
  obtain ⟨top, σ₁, -, w, h⟩ := (Laid.refl hk).newLabel_bind h
  obtain ⟨check, σ₂, hcheck, w, h⟩ := w.newLabel_bind h
  obtain ⟨_, σ₃, w, h⟩ := w.run_bind (.branch (Set.mem_singleton check)) (by simp) h
  obtain ⟨σ₄, w, h⟩ := w.mark_bind (by simp) h
  obtain ⟨_, σ₅, w, h⟩ := w.embed_bind (inScope hx) (by simp) h
  obtain ⟨σ₆, w, h⟩ := w.mark_bind (by grind) h
  exact (w.embed (ht.jump (Set.mem_singleton top)) h (by simp)).close (by grind) (by simp [or_comm])

end

end Embeds

end Classwright.Lowering
