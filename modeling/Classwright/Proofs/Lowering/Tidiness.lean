import Classwright.Proofs.Bytecode.Flow
import Classwright.Proofs.Lowering.Straight

/-!
Lowering keeps to itself.

What a term is lowered to branches to its own labels, to a label it is given, or behind a block
around it that its value is returned from; it resolves its own labels only, and all that it refers
to. So it is assembled within limits (`Within`). The judgement `Tidy` says so of a computation and
is kept by sequencing.
-/

namespace Classwright

open Code

namespace Lowering

variable {α β : Type} {env : Env} {σ σ' τ τ' : State} {T T' E E' A A' X X' : Set Label} {l : Label}
  {a : Action} {u : Unit}

/-! ### Regions -/

/-- The labels of a region. -/
def Region.labels (r : Region) : List Label :=
  r.since.toList ++ r.spans.flatMap fun s => [s.start, s.stop]

/-! ### Constants and slots -/

/-- A later state has the constants of an earlier one, and slots for its variables. -/
structure Supplies (σ σ' : State) : Prop where
  coherent : σ.pool.Coherent → σ'.pool.Coherent
  pool : σ.pool.Coherent → σ.pool.Extends σ'.pool
  locals : σ.maxLocals ≤ σ'.maxLocals

namespace Supplies

lemma of_eq (hp : σ'.pool = σ.pool) (hl : σ'.maxLocals = σ.maxLocals) : Supplies σ σ' :=
  ⟨fun h => hp ▸ h, fun _ => hp ▸ .refl _, hl.ge⟩

lemma refl (σ : State) : Supplies σ σ := of_eq rfl rfl

lemma trans (h : Supplies σ τ) (h' : Supplies τ σ') : Supplies σ σ' where
  coherent hp := h'.coherent (h.coherent hp)
  pool hp := (h.pool hp).trans (h'.pool (h.coherent hp))
  locals := h.locals.trans h'.locals

end Supplies

/-! ### Limits -/

/-- Labels to which control comes once they are resolved. -/
def Rooted (T : Set Label) (c : Code) (live : Set Nat) : Prop :=
  ∀ l ∈ T, c.position? l ≠ none → c.Anchored live l

lemma rooted_univ (T : Set Label) (c : Code) : Rooted T c Set.univ := fun l _ hl => by
  obtain ⟨q, hq⟩ := Option.ne_none_iff_exists'.1 hl
  exact ⟨q, hq, .inl trivial⟩

/-- The limits of what is lowered from a state on and may branch to `T`. -/
def State.limits (σ : State) (T : Set Label) : Limits := ⟨σ.code.labels.size, σ.code.size, T⟩

/-- What is lowered between two states is assembled within limits. The labels `E` are new and wait
to be resolved, and `A` are new and control comes to them; all others that are new and are referred
to are resolved. Regions are protected from here on. -/
structure Within (T E A : Set Label) (σ σ' : State) : Prop where
  known : ∀ l ∈ T, l.id < σ.code.labels.size
  runs : ∀ live, Rooted T σ.code live → ∃ live',
    Runs (σ.limits T) (σ.code, live) (σ'.code, live') ∧ ∀ l ∈ A, σ'.code.Anchored live' l
  waiting : ∀ l ∈ E, σ.code.labels.size ≤ l.id ∧ l.id < σ'.code.labels.size ∧
    σ'.code.position? l = none
  fresh : ∀ l ∈ A, σ.code.labels.size ≤ l.id ∧ l.id < σ'.code.labels.size
  settled : ∀ l, σ.code.labels.size ≤ l.id → l ∉ E → σ'.code.Referred l → σ'.code.position? l ≠ none
  regions : ∀ n, ∀ l ∈ (σ'.regions.region n).labels, l ∈ (σ.regions.region n).labels ∨
    ∃ p, σ'.code.position? l = some p ∧ σ.code.size ≤ p
  grown : σ.regions.all.size ≤ σ'.regions.all.size
  supply : Supplies σ σ'

namespace Within

lemma refl (hT : ∀ l ∈ T, l.id < σ.code.labels.size) : Within T ∅ ∅ σ σ where
  known := hT
  runs live _ := ⟨live, .refl, by simp⟩
  waiting := by simp
  fresh := by simp
  settled l hl _ hr := by simp [Referred, position?, not_referred_of_le hl] at hr
  regions _ _ := .inl
  grown := le_rfl
  supply := .refl σ

section

variable (w : Within T E A σ τ)

include w

/-- A run from any offsets, for what does not depend on them. -/
lemma advances : ∃ live, Advances (σ.limits T) (σ.code, Set.univ) (τ.code, live) := by
  obtain ⟨live, hrun, -⟩ := w.runs _ (rooted_univ T _)
  exact ⟨live, hrun.advances⟩

lemma appends : σ.code.Appends τ.code := by
  obtain ⟨live, h⟩ := w.advances
  exact h.appends le_rfl

lemma keeps : σ.code.Extends τ.code := w.appends.keeps

lemma size_le : σ.code.size ≤ τ.code.size := w.appends.size

lemma position?_eq (hl : l.id < σ.code.labels.size) : τ.code.position? l = σ.code.position? l := by
  obtain ⟨live, h⟩ := w.advances
  exact h.old hl

/-- Labels that are given or in hand are known. -/
lemma lt_of_mem (hl : l ∈ T ∨ l ∈ E ∨ l ∈ A) : l.id < τ.code.labels.size := by
  rcases hl with hl | hl | hl
  · exact (w.known l hl).trans_le w.keeps.labels
  · exact (w.waiting l hl).2.1
  · exact (w.fresh l hl).2

/-- A label of others stays as it is unless it is an exit. -/
lemma referred (hl : l.id < σ.code.labels.size) (hT : l ∉ T) (hr : τ.code.Referred l) :
    σ.code.Referred l := by
  obtain ⟨live, h⟩ := w.advances
  exact h.quiet hl hT hr

lemma rooted {live live' : Set Nat} (hroot : Rooted T σ.code live)
    (hrun : Runs (σ.limits T) (σ.code, live) (τ.code, live')) : Rooted T τ.code live' := by
  intro l hl hp
  have hadv := hrun.advances
  rw [show τ.code.position? l = _ from hadv.old (w.known l hl)] at hp
  exact hadv.anchored (hroot l hl hp)

/-- Labels that control comes to can be forgotten. -/
lemma forget (hA : A' ⊆ A) : Within T E A' σ τ :=
  { w with
    runs := fun live hlive => by
      obtain ⟨live', hrun, hanchor⟩ := w.runs live hlive
      exact ⟨live', hrun, fun l hl => hanchor l (hA hl)⟩
    fresh := fun l hl => w.fresh l (hA hl) }

lemma mono (hT : T ⊆ T') (hk : ∀ l ∈ T', l.id < σ.code.labels.size) : Within T' E A σ τ :=
  { w with
    known := hk
    runs := fun live hlive => by
      obtain ⟨live', hrun, hA⟩ := w.runs live fun l hl => hlive l (hT hl)
      have hn : Narrows (σ.limits T') (σ.limits T) := ⟨le_rfl, le_rfl, fun l hl => .inl (hT hl)⟩
      exact ⟨live', hrun.mono hn, hA⟩ }

/-- What changes neither code nor regions. -/
lemma congr (hcode : τ'.code = τ.code) (hregions : τ'.regions = τ.regions)
    (hsupply : Supplies τ τ') : Within T E A σ τ' where
  known := w.known
  runs := hcode ▸ w.runs
  waiting := hcode ▸ w.waiting
  fresh := hcode ▸ w.fresh
  settled := hcode ▸ w.settled
  regions := hcode ▸ hregions ▸ w.regions
  grown := hregions ▸ w.grown
  supply := w.supply.trans hsupply

/-- One step of the assembler more. -/
lemma step (hstep : ∀ live, Step (σ.limits T) (τ.code, live) (τ'.code, live))
    (hE : ∀ l ∈ E', σ.code.labels.size ≤ l.id ∧ l.id < τ'.code.labels.size ∧
    τ'.code.position? l = none)
    (hA : ∀ l ∈ A', l ∈ A ∨ (σ.code.labels.size ≤ l.id ∧ l.id < τ'.code.labels.size) ∧
    ∀ live, τ'.code.Anchored live l)
    (hsettled : ∀ l, σ.code.labels.size ≤ l.id → l ∉ E' → τ'.code.Referred l →
    τ'.code.position? l ≠ none) (hregions : τ'.regions = τ.regions) (hsupply : Supplies τ τ') :
    Within T E' A' σ τ' := by
  have hkeeps : τ.code.Extends τ'.code := (hstep ∅).advances.keeps
  refine ⟨w.known, fun live hlive => ?_, hE, fun l hl => ?_, hsettled, fun n l hl => ?_, ?_,
    w.supply.trans hsupply⟩
  · obtain ⟨live', hrun, hanchor⟩ := w.runs live hlive
    refine ⟨live', hrun.tail (hstep live'), fun l hl => ?_⟩
    rcases hA l hl with hl | ⟨-, hl⟩
    · exact (hstep live').advances.anchored (hanchor l hl)
    · exact hl live'
  · rcases hA l hl with hl | ⟨hl, -⟩
    · obtain ⟨hown, hlt⟩ := w.fresh l hl
      exact ⟨hown, hlt.trans_le hkeeps.labels⟩
    · exact hl
  · rw [hregions] at hl
    refine (w.regions n l hl).imp_right fun ⟨p, hp, hle⟩ => ⟨p, hkeeps.position hp, hle⟩
  · rw [hregions]
    exact w.grown

/-- What is lowered on from there, within its own limits: its exits are those of the whole, or
labels that are in hand. -/
lemma trans (w' : Within T' ∅ ∅ τ τ') (hT : ∀ l ∈ T', l ∈ T ∨ l ∈ E ∨ l ∈ A) :
    Within T E A σ τ' := by
  have hsize := w.size_le
  have hlabels := w.keeps.labels
  have hold {l : Label} (hl : l.id < τ.code.labels.size) := w'.position?_eq hl
  refine ⟨w.known, fun live hlive => ?_, fun l hl => ?_, fun l hl => ?_, fun l hown hl hr => ?_,
    fun n l hl => ?_, w.grown.trans w'.grown, w.supply.trans w'.supply⟩
  · obtain ⟨live₁, hrun, hanchor⟩ := w.runs live hlive
    have hroot : Rooted T' τ.code live₁ := by
      intro l hl hp
      rcases hT l hl with hl | hl | hl
      · exact w.rooted hlive hrun l hl hp
      · exact absurd (w.waiting l hl).2.2 hp
      · exact hanchor l hl
    obtain ⟨live₂, hrun', -⟩ := w'.runs live₁ hroot
    have hn : Narrows (σ.limits T) (τ.limits T') := by
      refine ⟨hlabels, hsize, fun l hl => ?_⟩
      rcases hT l hl with hl | hl | hl
      · exact .inl hl
      · exact .inr (w.waiting l hl).1
      · exact .inr (w.fresh l hl).1
    exact ⟨live₂, hrun.trans (hrun'.mono hn), fun l hl => hrun'.advances.anchored (hanchor l hl)⟩
  · obtain ⟨hown, hlt, hp⟩ := w.waiting l hl
    exact ⟨hown, hlt.trans_le w'.keeps.labels, (hold hlt).trans hp⟩
  · obtain ⟨hown, hlt⟩ := w.fresh l hl
    exact ⟨hown, hlt.trans_le w'.keeps.labels⟩
  · by_cases hlt : l.id < τ.code.labels.size
    · rw [hold hlt]
      by_cases hmem : l ∈ T'
      · rcases hT l hmem with hmem | hmem | hmem
        · have := w.known l hmem
          omega
        · exact absurd hmem hl
        · obtain ⟨live, -, hanchor⟩ := w.runs _ (rooted_univ T _)
          obtain ⟨q, hq, -⟩ := hanchor l hmem
          simp [hq]
      · exact w.settled l hown hl (w'.referred hlt hmem hr)
    · exact w'.settled l (not_lt.1 hlt) (by simp) hr
  · rcases w'.regions n l hl with hl | ⟨p, hp, hle⟩
    · exact (w.regions n l hl).imp_right fun ⟨p, hp, hle⟩ => ⟨p, w'.keeps.position hp, hle⟩
    · exact .inr ⟨p, hp, hsize.trans hle⟩

/-! ### Labels -/

lemma newLabel (h : newLabel env τ = .ok (l, τ')) : Within T (insert l E) A σ τ' ∧ l ∉ E := by
  obtain ⟨rfl, rfl⟩ := newLabel_eq_ok h
  have hown := w.keeps.labels
  have hstate (k : Label) : τ.code.newLabel.2.labelState k =
      if k.id = τ.code.labels.size then {} else τ.code.labelState k := labelState_push _
  refine ⟨w.step (fun live => .newLabel hown) (fun k hk => ?_) (fun k => .inl) (fun k hk hE hr =>
    ?_) rfl (.of_eq rfl rfl), fun hl => absurd (w.waiting _ hl).2.1 (lt_irrefl _)⟩
  · rcases hk with rfl | hk
    · refine ⟨hown, Code.newLabel_lt, ?_⟩
      rw [position?, hstate, if_pos (show τ.code.newLabel.1.id = τ.code.labels.size from rfl)]
    · obtain ⟨hle, hlt, hp⟩ := w.waiting k hk
      refine ⟨hle, hlt.trans Code.newLabel_lt, ?_⟩
      rwa [position?, hstate, if_neg hlt.ne]
  · have hne : k.id ≠ τ.code.labels.size := by
      rintro hid
      exact hE (.inl (by cases k; simp_all [Code.newLabel]))
    rw [Referred, position?, hstate, if_neg hne] at hr
    rw [position?, hstate, if_neg hne]
    exact w.settled k hk (fun hkE => hE (.inr hkE)) hr

/-- A label that is resolved and is no longer waited for. -/
lemma marked (hl : l ∈ E) {c : Code} {r : Bool} {err : Option CodeError}
    (hcode : τ'.code = c.marked l r err) (hc : c.labels = τ.code.labels ∧ c.size = τ.code.size)
    (hstep : ∀ live, Step (σ.limits T) (τ.code, live) (τ'.code, live))
    (hA : ∀ k ∈ A', k ∈ A ∨ k = l ∧ r) (hregions : τ'.regions = τ.regions)
    (hsupply : Supplies τ τ') : Within T (E \ {l}) A' σ τ' := by
  obtain ⟨hown, hlt, -⟩ := w.waiting l hl
  have hlabels : τ.code.labels.size ≤ τ'.code.labels.size := (hstep ∅).advances.keeps.labels
  have hat : τ'.code.position? l = some τ'.code.size := by
    rw [hcode]
    exact position?_marked (by rwa [hc.1])
  have hstate {k : Label} (hk : k ≠ l) : τ'.code.labelState k = τ.code.labelState k := by
    rw [hcode, labelState_marked, if_neg fun h => hk h.1, labelState, hc.1]
    rfl
  refine w.step hstep (fun k hk => ?_) (fun k hk => ?_) (fun k hk hE hr => ?_) hregions hsupply
  · obtain ⟨hk, hne⟩ := hk
    obtain ⟨hle, hlt, hp⟩ := w.waiting k hk
    refine ⟨hle, hlt.trans_le hlabels, ?_⟩
    rwa [position?, hstate hne]
  · rcases hA k hk with hk | ⟨rfl, hr⟩
    · exact .inl hk
    · refine .inr ⟨⟨hown, hlt.trans_le hlabels⟩, fun live => ⟨_, hat, .inr ⟨rfl, ?_⟩⟩⟩
      rw [hcode]
      exact hr
  · by_cases hne : k = l
    · rw [hne, hat]
      simp
    · rw [Referred, position?, hstate hne] at hr
      rw [position?, hstate hne]
      exact w.settled k hk (fun hkE => hE ⟨hkE, hne⟩) hr

lemma join (hl : l ∈ E) (h : join l env τ = .ok (u, τ')) : Within T (E \ {l}) A σ τ' := by
  obtain ⟨hown, hlt, -⟩ := w.waiting l hl
  obtain ⟨c, hc, rfl⟩ := onCode?_eq_ok_iff.1 h
  obtain ⟨-, err, rfl, -⟩ := join_eq_ok hc
  exact w.marked hl rfl ⟨rfl, rfl⟩ (fun live => .join hlt hown hc) (fun _ => .inl) rfl
    (.of_eq rfl rfl)

lemma mark (hl : l ∈ E) (h : mark l env τ = .ok (u, τ')) :
    Within T (E \ {l}) (insert l A) σ τ' := by
  obtain ⟨hown, hlt, -⟩ := w.waiting l hl
  obtain ⟨c, hc, rfl⟩ := onCode?_eq_ok_iff.1 h
  obtain ⟨-, err, rfl, -⟩ := mark_eq_ok hc
  exact w.marked hl rfl ⟨rfl, rfl⟩ (fun live => .mark hlt hown hc)
    (fun k hk => hk.elim (fun hk => .inr ⟨hk, rfl⟩) .inl) rfl (.of_eq rfl rfl)

end

/-- One instruction. -/
lemma emission {e : Emission} {c : Code} (hfit : e.Fits)
    (hk : ∀ l ∈ e.labels, l.id < σ.code.labels.size) (h : σ.code.emission e = .ok c) :
    Within {l | l ∈ e.labels} ∅ ∅ σ { σ with code := c } where
  known := hk
  runs live hlive := ⟨_, .single (.emission hfit hk (fun l hl => .inl hl) hlive h), by simp⟩
  waiting := by simp
  fresh := by simp
  settled l hl _ hr := by
    have hmem : l ∉ e.labels := fun hmem => absurd (hk l hmem) (not_lt.2 hl)
    simp [Referred, position?, labelState_emission h hmem, not_referred_of_le hl] at hr
  regions _ _ := .inl
  grown := le_rfl
  supply := .of_eq rfl rfl

end Within

/-! ### Computations -/

/-- The labels behind the blocks around, from which their values are returned. -/
def State.stops (σ : State) : Set Label := {l | ∃ y ∈ σ.yields, y.stop = l}

/-- Lowering that branches to labels of its own, to `X` and behind the blocks around. -/
def Tidy (env : Env) (X : Set Label) (x : Lower α) : Prop :=
  ∀ σ r σ', (∀ l ∈ X ∪ σ.stops, l.id < σ.code.labels.size) → x env σ = .ok (r, σ') →
    Within (X ∪ σ.stops) ∅ ∅ σ σ' ∧ σ'.yields = σ.yields

/-- What is lowered from a state on, with the blocks around as they are there. -/
structure Lays (T E A : Set Label) (σ τ : State) : Prop extends Within T E A σ τ where
  stops : σ.stops ⊆ T
  yields : τ.yields = σ.yields

lemma State.stops_eq (h : σ'.yields = σ.yields) : σ'.stops = σ.stops := by rw [stops, stops, h]

namespace Lays

lemma refl (hT : ∀ l ∈ X ∪ σ.stops, l.id < σ.code.labels.size) : Lays (X ∪ σ.stops) ∅ ∅ σ σ :=
  ⟨.refl hT, Set.subset_union_right, rfl⟩

variable (w : Lays T E A σ τ)

include w

/-- A computation that is given labels which are in hand. -/
lemma within {x : Lower α} {r : α} (hx : Tidy env X x) (h : x env τ = .ok (r, τ'))
    (hX : ∀ l ∈ X, l ∈ T ∨ l ∈ E ∨ l ∈ A) : Within (X ∪ τ.stops) ∅ ∅ τ τ' ∧ Lays T E A σ τ' := by
  have hall (l : Label) (hl : l ∈ X ∪ τ.stops) : l ∈ T ∨ l ∈ E ∨ l ∈ A := by
    rcases hl with hl | hl
    · exact hX l hl
    · exact .inl (w.stops (State.stops_eq w.yields ▸ hl))
  obtain ⟨w', hy⟩ := hx _ _ _ (fun l hl => w.lt_of_mem (hall l hl)) h
  exact ⟨w', w.toWithin.trans w' hall, w.stops, hy.trans w.yields⟩

lemma run {x : Lower α} {r : α} (hx : Tidy env X x) (h : x env τ = .ok (r, τ'))
    (hX : ∀ l ∈ X, l ∈ T ∨ l ∈ E ∨ l ∈ A) : Lays T E A σ τ' := (w.within hx h hX).2

lemma newLabel (h : newLabel env τ = .ok (l, τ')) : Lays T (insert l E) A σ τ' ∧ l ∉ E := by
  obtain ⟨w', hl⟩ := w.toWithin.newLabel h
  refine ⟨⟨w', w.stops, ?_⟩, hl⟩
  rw [(newLabel_eq_ok h).2]
  exact w.yields

lemma join (hl : l ∈ E) (h : join l env τ = .ok (u, τ')) : Lays T (E \ {l}) A σ τ' := by
  refine ⟨w.toWithin.join hl h, w.stops, ?_⟩
  obtain ⟨c, -, rfl⟩ := onCode?_eq_ok_iff.1 h
  exact w.yields

lemma mark (hl : l ∈ E) (h : mark l env τ = .ok (u, τ')) : Lays T (E \ {l}) (insert l A) σ τ' := by
  refine ⟨w.toWithin.mark hl h, w.stops, ?_⟩
  obtain ⟨c, -, rfl⟩ := onCode?_eq_ok_iff.1 h
  exact w.yields

/-- All labels are resolved. -/
lemma close (hE : ∀ l, l ∉ E) : Within T ∅ ∅ σ τ ∧ τ.yields = σ.yields := by
  obtain rfl := Set.eq_empty_iff_forall_notMem.2 hE
  exact ⟨w.toWithin.forget (Set.empty_subset A), w.yields⟩

/-- What comes first and is followed by more. -/
lemma run_bind {x : Lower α} {f : α → Lower β} {b : β} (hx : Tidy env X x)
    (hX : ∀ l ∈ X, l ∈ T ∨ l ∈ E ∨ l ∈ A) (h : (x >>= f) env τ = .ok (b, τ')) :
    ∃ r τ₁, x env τ = .ok (r, τ₁) ∧ Lays T E A σ τ₁ ∧ f r env τ₁ = .ok (b, τ') := by
  obtain ⟨r, τ₁, hx', h⟩ := bind_eq_ok_iff.1 h
  exact ⟨r, τ₁, hx', w.run hx hx' hX, h⟩

end Lays

namespace Tidy

variable {x : Lower α} {f : α → Lower β}

lemma mono (h : Tidy env X x) (hX : X ⊆ X') : Tidy env X' x := by
  intro σ r σ' hk hx
  obtain ⟨w, hy⟩ := h _ _ _ (fun l hl => hk l (Set.union_subset_union_left _ hX hl)) hx
  exact ⟨w.mono (Set.union_subset_union_left _ hX) hk, hy⟩

lemma bind (hx : Tidy env X x) (hf : ∀ r, Tidy env X (f r)) : Tidy env X (x >>= f) := by
  intro σ r σ' hk h
  obtain ⟨s, τ, hτ, h⟩ := bind_eq_ok_iff.1 h
  have w := (Lays.refl hk).run hx hτ fun l hl => .inl (.inl hl)
  exact (w.run (hf s) h fun l hl => .inl (.inl hl)).close (Set.notMem_empty ·)

lemma placed (place : String) (hx : Tidy env X x) : Tidy env X (placed place x) :=
  fun _ _ _ hk h => hx _ _ _ hk (placed_eq_ok_iff.1 h)

lemma ite {p : Prop} [Decidable p] {y : Lower α} (hx : Tidy env X x) (hy : Tidy env X y) :
    Tidy env X (if p then x else y) := by
  split
  · exact hx
  · exact hy

/-- What leaves the code as it is. -/
lemma of_code_eq (h : ∀ {σ r σ'}, x env σ = .ok (r, σ') → σ'.code = σ.code ∧
    σ'.regions = σ.regions ∧ σ'.yields = σ.yields ∧ Supplies σ σ') : Tidy env X x := by
  intro σ r σ' hk hx
  obtain ⟨hcode, hregions, hy, hsupply⟩ := h hx
  exact ⟨(Within.refl hk).congr hcode hregions hsupply, hy⟩

/-- One instruction. -/
lemma emission {e : Emission} (hfit : e.Fits) (hX : ∀ l ∈ e.labels, l ∈ X)
    (h : ∀ {σ r σ'}, x env σ = .ok (r, σ') →
    ∃ c, σ.code.emission e = .ok c ∧ { σ with code := c } = σ') : Tidy env X x := by
  intro σ r σ' hk hx
  obtain ⟨c, hc, rfl⟩ := h hx
  have w := Within.emission hfit (fun l hl => hk l (.inl (hX l hl))) hc
  exact ⟨w.mono (fun l hl => .inl (hX l hl)) hk, rfl⟩

lemma single {x : Lower Unit} {e : Emission} (hx : Single x e) : Tidy env X x :=
  emission hx.fits (by simp [hx.labels]) hx.emission

lemma emit (ha : a.operandLength = some 0) : Tidy env X (emit a) :=
  .single (.emit ha)

lemma branch (hl : l ∈ X) : Tidy env X (branch a l) :=
  emission (e := .jump a.opcode l) trivial (by simpa [Emission.labels] using hl) onCode?_eq_ok_iff.1

lemma of_straight (h : Straight env x) : Tidy env X x := by
  induction h with
  | pure r =>
    exact of_code_eq fun h => by obtain ⟨-, rfl⟩ := pure_eq_ok_iff.1 h; simp [Supplies.refl]
  | read => exact of_code_eq fun h => by obtain ⟨-, rfl⟩ := read_eq_ok_iff.1 h; simp [Supplies.refl]
  | get => exact of_code_eq fun h => by obtain ⟨-, rfl⟩ := get_eq_ok_iff.1 h; simp [Supplies.refl]
  | throw e => exact fun _ _ _ _ h => absurd h throw_ne_ok
  | bind _ _ hx hf => exact bind hx hf
  | placed place _ hx => exact placed place hx
  | single hx _ => exact single hx
  | pooling hm =>
    refine of_code_eq fun h => ?_
    obtain ⟨-, rfl⟩ := pooling_eq_ok_iff.1 h
    exact ⟨rfl, rfl, rfl, fun hp => (hm hp).1, fun hp => (hm hp).2, le_rfl⟩

lemma pure (r : α) : Tidy env X (pure r) := of_straight (.pure r)

protected lemma read : Tidy env X (read : Lower Env) := of_straight .read

protected lemma get : Tidy env X (get : Lower State) := of_straight .get

protected lemma load (l : Local) : Tidy env X (load l) := of_straight (.load l)

protected lemma store (l : Local) : Tidy env X (store l) := of_straight (.store l)

protected lemma invoke {owner name desc : String} {isInterface : Bool} (ha : a.takesShort) :
    Tidy env X (invoke a owner name desc isInterface) := of_straight (.invoke ha _ _ _ _)

lemma mismatch (m : Mismatch) : Tidy env X (mismatch m : Lower α) := of_straight (.mismatch m)

/-- A condition on which lowering fails. -/
lemma orFail {p : Prop} [Decidable p] {e : Stop} {y : Lower β} (hy : Tidy env X y) :
    Tidy env X (if p then (throw e : Lower α) >>= f else y) :=
  ite (of_straight (.throw_bind e f)) hy

lemma weaken (h : Tidy env ∅ x) : Tidy env X x := h.mono (Set.empty_subset X)

/-! ### The context -/

lemma reachable : Tidy env X reachable := of_straight (.bind .get fun _ => .pure _)

lemma modify {f : State → State}
    (h : ∀ σ, (f σ).code = σ.code ∧ (f σ).regions = σ.regions ∧ (f σ).yields = σ.yields ∧
    Supplies σ (f σ)) : Tidy env X (modify f) :=
  of_code_eq fun {σ _ _} hf => modify_eq_ok_iff.1 hf ▸ h σ

lemma pushScope : Tidy env X pushScope := modify fun _ => ⟨rfl, rfl, rfl, .of_eq rfl rfl⟩

lemma popScope : Tidy env X popScope := modify fun σ => by
  split <;> exact ⟨rfl, rfl, rfl, .of_eq rfl rfl⟩

lemma inScope {x : Lower Unit} (hx : Tidy env X x) : Tidy env X (inScope x) :=
  bind pushScope fun _ => bind hx fun _ => popScope

lemma declare (name : String) (ty : Ty) : Tidy env X (declare name ty) :=
  orFail (bind (of_straight (.lookup? name)) fun _ => orFail (bind .get fun _ =>
    bind (modify fun _ => ⟨rfl, rfl, rfl, id, fun _ => .refl _, le_max_left _ _⟩) fun _ => pure _))

lemma freshWithin (stem : String) (fuel : Nat) : Tidy env X (freshWithin stem fuel) := by
  induction fuel with
  | zero => exact of_straight (.throw _)
  | succ fuel ih =>
    exact bind .get fun _ => bind (modify fun _ => ⟨rfl, rfl, rfl, .of_eq rfl rfl⟩) fun _ =>
      bind (of_straight (.lookup? _)) fun _ => ite ih (pure _)

lemma temp (stem : String) (ty : Ty) : Tidy env X (temp stem ty) :=
  bind (bind .get fun _ => bind .read fun _ => freshWithin stem _)
    fun _ => declare _ ty

lemma emitReturn (ty : Ty) : Tidy env X (emitReturn ty) := by
  unfold Lowering.emitReturn
  split <;> exact emit rfl

lemma discard (ty : Ty) : Tidy env X (discard ty) := by
  unfold Lowering.discard
  split
  · exact emit rfl
  · exact emit rfl
  · exact pure _

lemma forM {xs : List α} {f : α → Lower Unit} (h : ∀ x ∈ xs, Tidy env X (f x)) :
    Tidy env X (xs.forM f) := by
  induction xs with
  | nil => exact pure _
  | cons x xs ih =>
    exact bind (h x List.mem_cons_self) fun _ => ih fun y hy => h y (List.mem_cons_of_mem x hy)

end Tidy

end Lowering

end Classwright
