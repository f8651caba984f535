import Classwright.Proofs.Lowering.Switches

/-!
Protected statements and locks keep to themselves.

The spans of a region are noted at the end of the code. A region that is opened in a statement has
its spans within the code of the statement, whatever cleanups are inlined in between, so that a
handler protects that code only.
-/

namespace Classwright.Lowering

/-! ### Regions -/

namespace Regions

variable {rs rs' : Regions} {l : Label}

/-- Regions that have one label more at most. -/
structure Notes (l : Label) (rs rs' : Regions) : Prop where
  labels : ∀ n, ∀ k ∈ (rs'.region n).labels, k ∈ (rs.region n).labels ∨ k = l
  size : rs.all.size ≤ rs'.all.size

/-- One region is changed. -/
lemma notes_modify (n : Nat) {f : Region → Region}
    (hf : ∀ r, ∀ k ∈ (f r).labels, k ∈ r.labels ∨ k = l) :
    Notes l rs { rs with all := rs.all.modify n f } := by
  refine ⟨fun m k hk => ?_, by simp⟩
  unfold region at hk ⊢
  simp only [Array.getD_eq_getD_getElem?, Array.getElem?_modify] at hk ⊢
  split_ifs at hk with hm
  · subst hm
    cases hr : rs.all[n]? with
    | none =>
      rw [hr] at hk
      exact .inl hk
    | some r =>
      rw [hr] at hk
      exact hf r k hk
  · exact .inl hk

lemma notes_pause (n : Nat) : Notes l rs (rs.pause n l) := by
  refine notes_modify n fun r k hk => ?_
  cases hs : r.since with
  | none =>
    rw [hs] at hk
    exact .inl hk
  | some start =>
    rw [hs] at hk
    simp only [Region.labels, hs, Option.toList_some, Option.toList_none, List.nil_append,
      List.flatMap_append, List.flatMap_singleton, List.mem_append, List.mem_cons, List.not_mem_nil,
      or_false] at hk ⊢
    tauto

lemma notes_resume (n : Nat) : Notes l rs (rs.resume n l) := by
  refine notes_modify n fun r k hk => ?_
  cases hs : r.since with
  | none =>
    simp only [Region.labels, hs, Option.getD_none, Option.toList_some, Option.toList_none,
      List.nil_append, List.mem_append, List.mem_singleton] at hk ⊢
    exact hk.symm
  | some start =>
    simp only [Region.labels, hs, Option.getD_some] at hk ⊢
    exact .inl hk

lemma all_push (n : Nat) : (rs.push n).all = rs.all := by
  unfold push
  dsimp only
  split <;> rfl

lemma all_leave (n : Nat) : (rs.leave n).all = rs.all := by
  unfold leave
  split <;> rfl

lemma notes_begin (cleanup : Option Cleanup) : Notes l rs (rs.begin l cleanup).2 := by
  refine ⟨fun n k hk => ?_, ?_⟩
  · rw [begin, region, all_push, Array.getD_eq_getD_getElem?, Array.getElem?_push] at hk
    split_ifs at hk with hn
    · exact .inr (by simpa [Region.labels] using hk)
    · rw [region, Array.getD_eq_getD_getElem?]
      exact .inl hk
  · rw [begin, all_push, Array.size_push]
    exact Nat.le_succ _

end Regions

variable {α : Type} {env : Env} {σ σ' τ τ' τ₁ : State} {T E A X : Set Label} {l stop : Label}
  {u : Unit} {n : Nat} {P : State → State → Prop} {p q : Prop} {catchType : UInt16}

/-- A label at the end of the code. -/
lemma Within.here (w : Within T E A σ τ) (h : here env τ = .ok (l, τ')) :
    Within T E A σ τ' ∧ τ'.code.position? l = some τ'.code.size ∧ τ'.yields = τ.yields := by
  obtain ⟨rfl, rfl⟩ := withCode_eq_ok_iff.1 h
  have hown := w.keeps.labels
  have hstate (k : Label) : τ.code.here.2.labelState k =
      if k.id = τ.code.labels.size then ⟨some τ.code.size, []⟩ else τ.code.labelState k :=
        Code.labelState_push _
  have hid : τ.code.here.1.id = τ.code.labels.size := rfl
  have hold {k : Label} (hk : k.id < τ.code.labels.size) :
      τ.code.here.2.labelState k = τ.code.labelState k := by rw [hstate, if_neg hk.ne]
  have hlabels : τ.code.labels.size < τ.code.here.2.labels.size := by simp [Code.here]
  refine ⟨w.step (fun live => .here hown) (fun k hk => ?_) (fun k => .inl) (fun k hk hE hr => ?_)
    rfl (.of_eq rfl rfl), ?_, rfl⟩
  · obtain ⟨hle, hlt, hp⟩ := w.waiting k hk
    refine ⟨hle, hlt.trans hlabels, ?_⟩
    rwa [Code.position?, hold hlt]
  · by_cases hk' : k.id = τ.code.labels.size
    · rw [Code.position?, hstate, if_pos hk']
      simp
    · rw [Code.Referred, Code.position?, hstate, if_neg hk'] at hr
      rw [Code.position?, hstate, if_neg hk']
      exact w.settled k hk hE hr
  · rw [Code.position?, hstate, if_pos hid]
    rfl

lemma Within.notes {rs : Regions} {p : Nat} (w : Within T E A σ τ)
    (hl : τ.code.position? l = some p) (hp : σ.code.size ≤ p) (hn : τ.regions.Notes l rs) :
    Within T E A σ { τ with regions := rs } :=
  { w with
    regions := fun m k hk => by
      rcases hn.labels m k hk with hk | rfl
      · exact w.regions m k hk
      · exact .inr ⟨p, hl, hp⟩
    grown := w.grown.trans hn.size
    supply := w.supply.trans (.of_eq rfl rfl) }

namespace Tidy

/-- What notes the end of the code in the regions. -/
lemma here_bind {f : Label → Lower α} (hf : ∀ {l τ r τ'}, f l env τ = .ok (r, τ') →
    ∃ rs, τ.regions.Notes l rs ∧ τ' = { τ with regions := rs }) : Tidy env X (here >>= f) := by
  intro σ r σ' hk h
  obtain ⟨l, τ, hl, h⟩ := bind_eq_ok_iff.1 h
  obtain ⟨rs, hrs, rfl⟩ := hf h
  obtain ⟨w, hpos, hy⟩ := (Within.refl hk).here hl
  exact ⟨w.notes hpos w.size_le hrs, hy⟩

/-- What changes the stack of open regions only. -/
lemma onRegions {f : Regions → Regions} (hf : ∀ rs, (f rs).all = rs.all) :
    Tidy env X (onRegions f) := by
  intro σ u σ' hk h
  obtain rfl := modify_eq_ok_iff.1 h
  have w := Within.refl hk
  refine ⟨⟨w.known, w.runs, w.waiting, w.fresh, w.settled, fun n k hl => .inl ?_, ?_,
    .of_eq rfl rfl⟩, rfl⟩
  · rwa [Regions.region, hf] at hl
  · rw [hf]

lemma setStack (v : View) : Tidy env X (setStack v) := onRegions fun _ => rfl

lemma openRegion (cleanup : Option Cleanup) : Tidy env X (openRegion cleanup) :=
  here_bind fun {l τ r τ'} h => by
    obtain ⟨-, rfl⟩ := Prod.mk.inj (Except.ok.inj h)
    exact ⟨_, Regions.notes_begin cleanup, rfl⟩

lemma pause (n : Nat) : Tidy env X (pause n) :=
  here_bind fun h => ⟨_, Regions.notes_pause n, (modify_eq_ok_iff.1 h).symm⟩

lemma resume (n : Nat) : Tidy env X (resume n) :=
  here_bind fun h => ⟨_, Regions.notes_resume n, (modify_eq_ok_iff.1 h).symm⟩

lemma closeRegion (n : Nat) : Tidy env X (closeRegion n) :=
  bind (pause n) fun _ => onRegions fun _ => Regions.all_leave n

end Tidy

lemma covers_eq_ok {b : Bool} (h : covers n env σ = .ok (b, σ')) :
    (σ.regions.region n).covers σ.code = b ∧ σ' = σ := by
  have h : (pure ((σ.regions.region n).covers σ.code) : Lower Bool) env σ = .ok (b, σ') :=
    get_bind_eq_ok_iff.1 h
  obtain ⟨hb, hσ⟩ := pure_eq_ok_iff.1 h
  exact ⟨hb, hσ.symm⟩

lemma openRegion_eq_ok {cleanup : Option Cleanup} (h : openRegion cleanup env σ = .ok (n, σ')) :
    n = σ.regions.all.size := by
  obtain ⟨l, τ, hl, h⟩ := bind_eq_ok_iff.1 h
  obtain ⟨-, rfl⟩ := withCode_eq_ok_iff.1 hl
  exact (Prod.mk.inj (Except.ok.inj h)).1.symm

lemma protectRegion_eq_ok (h : protectRegion n l catchType env σ = .ok (u, σ')) :
    σ' = { σ with code := ((σ.regions.region n).spans.map fun sp =>
      (⟨sp.start, sp.stop, l, catchType⟩ : Guard)).foldl Code.guard σ.code } := by
  replace h := get_bind_eq_ok_iff.1 h
  have hspans (spans : List Span) (σ : State) (h : (spans.forM fun sp =>
      onCode (·.guard ⟨sp.start, sp.stop, l, catchType⟩)) env σ = .ok (u, σ')) :
      σ' = { σ with code := (spans.map fun sp =>
        (⟨sp.start, sp.stop, l, catchType⟩ : Guard)).foldl Code.guard σ.code } := by
    induction spans generalizing σ with
    | nil => exact (pure_eq_ok_iff.1 h).2.symm
    | cons sp spans ih =>
      obtain ⟨_, σ₁, h₁, h⟩ := bind_eq_ok_iff.1 h
      obtain rfl := onCode_eq_ok_iff.1 h₁
      rw [ih _ h]
      rfl
  exact hspans _ σ h

/-- A handler is one step of the assembler, once the region has its spans. -/
lemma handler_step {b : Limits} (hlt : l.id < τ.code.labels.size) (hown : b.known ≤ l.id)
    (hregion : ∀ k ∈ (τ.regions.region n).labels, ∃ p, τ.code.position? k = some p ∧ b.start ≤ p)
    (hp : protectRegion n l catchType env τ = .ok (u, τ₁)) (hm : mark l env τ₁ = .ok (u, τ')) :
    ∃ (gs : List Guard) (c : Code), (gs.foldl Code.guard τ.code).mark l = .ok c ∧
    { τ with code := c } = τ' ∧ ∀ live, Code.Step b (τ.code, live) (c, live) := by
  obtain rfl := protectRegion_eq_ok hp
  obtain ⟨c, hc, rfl⟩ := onCode?_eq_ok_iff.1 hm
  refine ⟨_, c, hc, rfl, fun live => .handler hlt hown (fun g hg => ?_) hc⟩
  obtain ⟨sp, hsp, rfl⟩ := List.mem_map.1 hg
  have hmem (k : Label) (hk : k ∈ [sp.start, sp.stop]) : k ∈ (τ.regions.region n).labels :=
    List.mem_append_right _ (List.mem_flatMap.2 ⟨sp, hsp, hk⟩)
  obtain ⟨p, hp, -⟩ := hregion sp.stop (hmem _ (by simp))
  exact ⟨rfl, hregion sp.start (hmem _ (by simp)), by simp [hp]⟩

namespace Laid

/-- A handler of a region that was opened within. -/
lemma handler {catchType : UInt16} (w : Laid P p T (insert l E) A σ τ) (hl : l ∉ E)
    (hn : σ.regions.all.size ≤ n) (hp : protectRegion n l catchType env τ = .ok (u, τ₁))
    (hm : mark l env τ₁ = .ok (u, τ')) : Laid P p T E A σ τ' := by
  obtain ⟨hown, hlt, -⟩ := w.waiting l (Set.mem_insert l E)
  have hnew : (σ.regions.region n).labels = [] := by
    rw [Regions.region, Array.getD_eq_getD_getElem?, Array.getElem?_eq_none hn]
    rfl
  have hregion (k : Label) (hk : k ∈ (τ.regions.region n).labels) :
      ∃ p, τ.code.position? k = some p ∧ σ.code.size ≤ p :=
    (w.regions n k hk).resolve_left (by simp [hnew])
  obtain ⟨gs, c, hc, rfl, hstep⟩ := handler_step (b := σ.limits T) hlt hown hregion hp hm
  rw [Code.foldl_guard] at hc
  obtain ⟨-, err, hcode, -⟩ := Code.mark_eq_ok hc
  have w' : Within T (insert l E \ {l}) A σ { τ with code := c } :=
    w.marked (Set.mem_insert l E) hcode ⟨rfl, rfl⟩ hstep (fun k hk => .inl hk) rfl (.of_eq rfl rfl)
  rw [Set.insert_sdiff_self_of_notMem hl] at w'
  exact w.grow ⟨w', w.stops, w.yields⟩ (.of_step hstep rfl (.of_eq rfl rfl))

end Laid

/-! ### Statements -/

section

variable (hagain : ∀ s, Tidy env ∅ fun e => e.again s)

namespace Tidy

lemma release (held : Local) : Tidy env X (release held) :=
  bind (.load held) fun _ => emit rfl

include hagain in
lemma cleanUp (c : Cleanup) : Tidy env X (cleanUp c) := by
  cases c with
  | run body => exact inScope (hagain body).weaken
  | release held => exact release held

include hagain in
lemma unwind (ns : List Nat) : Tidy env X (unwind ns) := by
  induction ns with
  | nil => exact pure _
  | cons n outer ih =>
    refine bind (pause n) fun _ => bind .get fun s => ?_
    split
    · exact bind (onRegions fun _ => rfl) fun _ => bind (cleanUp hagain _) fun _ => ih
    · exact ih

include hagain in
lemma leave {exit : Lower Unit} (hx : Tidy env X exit) : Tidy env X (leave exit) :=
  bind .get fun _ => bind (unwind hagain _) fun _ => bind (setStack _) fun _ =>
    bind hx fun _ => forM fun n _ => resume n

lemma complete {fin : Option Finish} (hf : ∀ f ∈ fin, Tidy env ∅ f.body) (hstop : stop ∈ X) :
    Tidy env X (complete fin stop) := by
  refine bind reachable fun b => ite ?_ (pure _)
  cases fin with
  | none => exact bind reachable fun _ => ite (bind (branch hstop) fun _ => pure _) (pure _)
  | some f =>
    refine bind .get fun _ => bind (pause _) fun _ => bind (onRegions fun _ => rfl) fun _ =>
      bind (inScope (hf f rfl).weaken) fun _ => bind (setStack _) fun _ =>
        bind reachable fun _ => ite ?_ ?_
    · exact bind (branch hstop) fun _ => resume _
    · exact resume _

end Tidy

include hagain in
/-- A return leaves the method, or goes behind the block that it gives the value of. -/
lemma Embeds.giveBack {value : Operand} (hv : value.Embeds env P p) :
    Embeds env P p X (giveBack value) := by
  intro σ u σ' hk h
  replace h := get_bind_eq_ok_iff.1 h
  replace h := read_bind_eq_ok_iff.1 h
  cases hy : σ.yields with
  | cons y ys =>
    simp only [hy] at h
    obtain ⟨-, h⟩ := unless_eq_ok h
    obtain ⟨_, τ, w, h⟩ := (Laid.refl hk).embed_bind (X := ∅) (hv.as y.ty) (by simp) h
    refine (w.run (.branch (Set.mem_singleton y.stop)) h ?_).close (by simp) .inr
    rintro l rfl
    exact .inl (.inr ⟨y, hy ▸ List.mem_cons_self, rfl⟩)
  | nil =>
    simp only [hy] at h
    have hleft : Tidy env X (if env.method.returns.isVoid then leave (emit .returnVoid)
        else Lowering.mismatch (.noReturnValue env.method.returns)) :=
        .ite (.leave hagain (.emit rfl)) (.mismatch _)
    have hembeds : Embeds env P p X (if value.term.isAbsent then
        if env.method.returns.isVoid then leave (emit .returnVoid)
        else Lowering.mismatch (.noReturnValue env.method.returns)
      else do
        if env.method.returns.isVoid then Lowering.mismatch .voidReturnValue
        value.as env.method.returns
        if (← get).regions.needCleanup then
          let held ← temp "ret" env.method.returns
          store held
          leave do
            load held
            emitReturn env.method.returns
        else emitReturn env.method.returns) := by
      refine .ite (fun habs => hleft.embeds.imp (hv.not_of_isAbsent habs)) fun _ =>
        .orFail (.before (hv.as _) fun _ => .bind .get fun _ => .ite ?_ (.emitReturn _))
      exact .bind (.temp _ _) fun held => .bind (.store held) fun _ =>
        .leave hagain (.bind (.load held) fun _ => .emitReturn _)
    exact hembeds σ u σ' hk h

end

/-- What a clause does with an exception that was caught. -/
lemma embeds_handled {c : Clause} {fin : Option Finish} (hc : Embeds env P p ∅ c.body)
    (hf : ∀ f ∈ fin, Tidy env ∅ f.body) (hstop : stop ∈ X) (caught : Local) : Embeds env P p X (do
      store caught
      modify fun s => { s with catches := caught :: s.catches }
      inScope c.body
      modify fun s => { s with catches := s.catches.drop 1 }
      complete fin stop) :=
  .after (.store caught) fun _ => .after (.modify fun _ => ⟨rfl, rfl, rfl, .of_eq rfl rfl⟩) fun _ =>
    .before (.inScope hc.weaken) fun _ =>
      .bind (.modify fun _ => ⟨rfl, rfl, rfl, .of_eq rfl rfl⟩) fun _ => .complete hf hstop

/-- What a cleanup does with an exception that was caught. -/
lemma embeds_rethrown {f : Finish} (hf : Embeds env P p ∅ f.body) : Embeds env P p X (do
    let caught ← temp "exc" (.cls .throwable)
    store caught
    inScope f.body
    if ← reachable then
      load caught
      emit .throwValue) := by
  refine .after (.temp _ _) fun caught => .after (.store caught) fun _ =>
    .before (.inScope hf.weaken) fun _ => .bind .reachable fun _ => .ite ?_ (.pure _)
  exact .bind (.load caught) fun _ => .emit rfl

namespace Laid

/-- What is lowered under a condition, and what follows it. -/
lemma when_bind {b : Bool} {x : Lower Unit} {y z : Lower α} {r : α} (hz : z = x >>= fun _ => y)
    (hy : b = false → Laid P p T E A σ τ)
    (hx : b = true → ∀ ⦃τ₁⦄, x env τ = .ok ((), τ₁) → Laid P p T E A σ τ₁)
    (h : (if b then z else y) env τ = .ok (r, τ')) :
    ∃ τ₁, Laid P p T E A σ τ₁ ∧ y env τ₁ = .ok (r, τ') := by
  subst hz
  cases b with
  | false => exact ⟨τ, hy rfl, h⟩
  | true =>
    obtain ⟨_, τ₁, hτ₁, h⟩ := bind_eq_ok_iff.1 h
    exact ⟨τ₁, hx rfl hτ₁, h⟩

variable (w : Laid P p T E A σ τ)

include w

lemma openRegion_bind {cleanup : Option Cleanup} {f : Nat → Lower α} {r : α}
    (h : (openRegion cleanup >>= f) env τ = .ok (r, τ')) :
    ∃ n τ₁, σ.regions.all.size ≤ n ∧ Laid P p T E A σ τ₁ ∧ f n env τ₁ = .ok (r, τ') := by
  obtain ⟨n, τ₁, hn, h⟩ := bind_eq_ok_iff.1 h
  exact ⟨n, τ₁, openRegion_eq_ok hn ▸ w.grown, w.run (X := ∅) (.openRegion cleanup) hn (by simp), h⟩

lemma covers_bind {f : Bool → Lower α} {r : α} (h : (covers n >>= f) env τ = .ok (r, τ')) :
    f ((τ.regions.region n).covers τ.code) env τ = .ok (r, τ') := by
  obtain ⟨b, τ₁, hb, h⟩ := bind_eq_ok_iff.1 h
  obtain ⟨rfl, rfl⟩ := covers_eq_ok hb
  exact h

lemma handle {c : Clause} {fin : Option Finish} (hstop : stop ∈ E) (hn : σ.regions.all.size ≤ n)
    (hc : Embeds env P q ∅ c.body) (hf : ∀ f ∈ fin, Tidy env ∅ f.body)
    (h : handle c n fin stop env τ = .ok (u, τ')) : Laid P (p ∨ q) T E A σ τ' := by
  replace h := read_bind_eq_ok_iff.1 h
  obtain ⟨-, h⟩ := unless_eq_ok h
  obtain ⟨l, τ₁, hl, w, h⟩ := w.newLabel_bind h
  obtain ⟨index, τ₂, w, h⟩ := w.next_bind (.of_straight (.classIndex _)) h
  obtain ⟨_, τ₃, h₃, h⟩ := bind_eq_ok_iff.1 h
  obtain ⟨_, τ₄, h₄, h⟩ := bind_eq_ok_iff.1 h
  have hcaught := embeds_handled hc hf (Set.mem_singleton stop)
  exact (w.handler hl hn h₃ h₄).embed (.inScope (.ite (fun _ => .after (.temp _ _) hcaught)
    fun _ => .after (.declare _ _) hcaught)) h (by simp [hstop])

lemma handles {cs : List Clause} {fin : Option Finish} (hstop : stop ∈ E)
    (hn : σ.regions.all.size ≤ n) (hcs : Along (fun q c => Embeds env P q ∅ c.body) q cs)
    (hf : ∀ f ∈ fin, Tidy env ∅ f.body)
    (h : (cs.forM fun c => Lowering.handle c n fin stop) env τ = .ok (u, τ')) :
    Laid P (p ∨ q) T E A σ τ' := by
  induction hcs generalizing p τ with
  | nil hq => exact (pure_eq_ok_iff.1 h).2 ▸ w.imp (·.resolve_right hq)
  | cons hc _ hr ih =>
    obtain ⟨_, τ₁, h₁, h⟩ := bind_eq_ok_iff.1 h
    refine (ih (w.handle hstop hn hc hf h₁) h).imp fun hpr => ?_
    exact or_assoc.2 (hpr.imp_right hr)

lemma rethrow {f : Finish} (hn : σ.regions.all.size ≤ f.region) (hf : Embeds env P q ∅ f.body)
    (h : rethrow f env τ = .ok (u, τ')) : Laid P (p ∨ q) T E A σ τ' := by
  obtain ⟨l, τ₁, hl, w, h⟩ := w.newLabel_bind h
  obtain ⟨_, τ₂, h₂, h⟩ := bind_eq_ok_iff.1 h
  obtain ⟨_, τ₃, h₃, h⟩ := bind_eq_ok_iff.1 h
  exact (w.handler hl hn h₂ h₃).embed (X := ∅) (.inScope (embeds_rethrown hf)) h (by simp)

end Laid

/-- A protected statement is lowered, and a region that it opens protects no instruction. -/
def Idles (env : Env) (body : Lower Unit) (clauses : List Clause)
    (cleanup : Option (Stmt × Lower Unit)) (σ σ' : State) : Prop :=
  protect body clauses cleanup env σ = .ok ((), σ') ∧
    ∃ n ρ, σ.regions.all.size ≤ n ∧ (ρ.regions.region n).covers ρ.code = false ∧ Amid σ σ' ρ ρ

section

variable {body : Lower Unit} {clauses : List Clause} {cleanup : Option (Stmt × Lower Unit)}
  {s : Prop}

/-- The parts of a protected statement behind the label of its end. Clauses and cleanup are lowered
if their regions protect anything. -/
lemma Laid.protect (hbody : Embeds env P p ∅ body)
    (hclauses : Along (fun q c => Embeds env P q ∅ c.body) q clauses)
    (hcleanup : ∀ c ∈ cleanup, Embeds env P s ∅ c.2) (hnone : cleanup = none → ¬ s)
    (hidle : q ∨ s → ∀ {n ρ}, σ.regions.all.size ≤ n → (ρ.regions.region n).covers ρ.code = false →
    P ρ ρ) (hk : ∀ l ∈ X ∪ σ.stops, l.id < σ.code.labels.size)
    (h : Lowering.protect body clauses cleanup env σ = .ok (u, σ')) :
    Laid P (p ∨ q ∨ s) (X ∪ σ.stops) ∅ ∅ σ σ' := by
  replace h := (unless_eq_ok (get_bind_eq_ok_iff.1 h)).2
  split_ifs at h with hempty
  · obtain ⟨hcs, hc⟩ := Bool.and_eq_true_iff.1 hempty
    obtain rfl := List.isEmpty_iff.1 hcs
    cases hclauses with
    | nil hq =>
      exact (Embeds.inScope hbody.weaken σ u σ' hk h).imp fun hpq =>
        hpq.resolve_right (not_or.2 ⟨hq, hnone (Option.isNone_iff_eq_none.1 hc)⟩)
  · obtain ⟨stop, σ₁, -, w, h⟩ := (Laid.refl (P := P) hk).newLabel_bind h
    obtain ⟨fin, σ₂, hfin, h⟩ := bind_eq_ok_iff.1 h
    have hfin : (∀ f ∈ fin, σ.regions.all.size ≤ f.region ∧ Embeds env P s ∅ f.body) ∧
        (fin = none → ¬ s) ∧ Laid P False (X ∪ σ.stops) (insert stop ∅) ∅ σ σ₂ := by
      cases cleanup with
      | none =>
        obtain ⟨rfl, rfl⟩ := pure_eq_ok_iff.1 hfin
        exact ⟨by simp, fun _ => hnone rfl, w⟩
      | some c =>
        rw [Option.mapM_some, map_eq_pure_bind] at hfin
        obtain ⟨f, τ, hf, hfin⟩ := bind_eq_ok_iff.1 hfin
        obtain ⟨rfl, rfl⟩ := pure_eq_ok_iff.1 hfin
        obtain ⟨n, τ, hn, w, hf⟩ := w.openRegion_bind hf
        obtain ⟨rfl, rfl⟩ := pure_eq_ok_iff.1 hf
        refine ⟨fun f hmem => ?_, by simp, w⟩
        obtain rfl := Option.some.inj hmem
        exact ⟨hn, hcleanup c rfl⟩
    obtain ⟨hf, hnone, w⟩ := hfin
    have htidy (f : Finish) (hmem : f ∈ fin) : Tidy env ∅ f.body := (hf f hmem).2.tidy
    obtain ⟨region, σ₃, hregion, w, h⟩ := w.openRegion_bind h
    obtain ⟨_, σ₄, w, h⟩ := w.embed_bind (.inScope hbody) (by simp) h
    obtain ⟨_, σ₅, w, h⟩ := w.next_bind (.closeRegion region) h
    obtain ⟨_, σ₆, w, h⟩ := w.run_bind (.complete htidy (Set.mem_singleton stop)) (by simp) h
    obtain ⟨σ₇, w, h⟩ := when_bind rfl (fun hb => w.found fun hq => hidle (.inl hq) hregion hb)
      (fun _ _ => w.handles (Set.mem_insert _ _) hregion hclauses htidy) (w.covers_bind h)
    cases fin with
    | none =>
      have hs := hnone rfl
      exact (w.join (Set.mem_insert _ _) h).close (by simp) (by tauto)
    | some f =>
      obtain ⟨_, σ₈, w, h⟩ := w.next_bind (.closeRegion f.region) h
      obtain ⟨hn, hbody'⟩ := hf f rfl
      obtain ⟨σ₉, w, h⟩ := when_bind rfl (fun hb => w.found fun hs => hidle (.inr hs) hn hb)
        (fun _ _ => w.rethrow hn hbody') (w.covers_bind h)
      exact (w.join (Set.mem_insert _ _) h).close (by simp) (by tauto)

/-- If a clause or the cleanup is looked into, the statement may protect nothing instead. -/
lemma Embeds.protect (hbody : Embeds env P p ∅ body)
    (hclauses : Along (fun q c => Embeds env P q ∅ c.body) q clauses)
    (hcleanup : ∀ c ∈ cleanup, Embeds env P s ∅ c.2) (hnone : cleanup = none → ¬ s)
    (hidle : q ∨ s → ∀ {σ σ'}, Idles env body clauses cleanup σ σ' → P σ σ') :
    Embeds env P (p ∨ q ∨ s) X (protect body clauses cleanup) := by
  intro σ u σ' hk h
  have hplain : Laid P (p ∨ False ∨ False) (X ∪ σ.stops) ∅ ∅ σ σ' :=
    .protect hbody (.of_forall fun c hc => (hclauses.forall_mem Embeds.tidy c hc).embeds)
      (fun c hc => (hcleanup c hc).tidy.embeds) (fun _ => id) (by simp) hk h
  refine ⟨hplain.toLays, fun hpqs => hpqs.elim (fun hp => hplain.amid (.inl hp)) fun hqs => ?_⟩
  -- Now a region that protects nothing is looked for as well.
  let R (ρ ρ' : State) : Prop := P ρ ρ' ∨
    ρ' = ρ ∧ ∃ n, σ.regions.all.size ≤ n ∧ (ρ.regions.region n).covers ρ.code = false
  have hR {q : Prop} {x : Lower Unit} (hx : Embeds env P q ∅ x) : Embeds env R q ∅ x :=
    hx.mono_of .inl
  have w : Laid R (p ∨ q ∨ s) (X ∪ σ.stops) ∅ ∅ σ σ' :=
    .protect (hR hbody) (hclauses.imp hR) (fun c hc => hR (hcleanup c hc)) hnone
      (fun _ _ _ hn hcovers => .inr ⟨rfl, _, hn, hcovers⟩) hk h
  obtain ⟨ρ, ρ', hP | ⟨rfl, n, hn, hcovers⟩, ha⟩ := w.amid (.inr hqs)
  · exact ⟨ρ, ρ', hP, ha⟩
  · refine ⟨σ, σ', hidle hqs ⟨h, n, ρ', hn, hcovers, ha⟩, ?_⟩
    exact ⟨.refl _, fun l hl => hk l (.inr hl), id, .refl _, .refl σ, .refl σ'⟩

end

namespace Embeds

variable {body : Lower Unit}

lemma lock {monitor : Operand} (hm : monitor.Embeds env P p) (hbody : Embeds env P q ∅ body) :
    Embeds env P (p ∨ q) X (lock monitor body) := by
  refine after .get fun _ => orFail (inScope ?_)
  refine bind hm.ref fun _ => after (.temp _ _) fun held => after (.emit rfl) fun _ =>
    after (.store held) fun _ => after (.emit rfl) fun _ => ?_
  intro σ u σ' hk h
  obtain ⟨region, σ₁, hregion, w, h⟩ := (Laid.refl hk).openRegion_bind h
  obtain ⟨_, σ₂, w, h⟩ := w.embed_bind (inScope hbody) (by simp) h
  obtain ⟨_, σ₃, w, h⟩ := w.next_bind (.closeRegion region) h
  obtain ⟨stop, σ₄, -, w, h⟩ := w.newLabel_bind h
  obtain ⟨b, σ₅, w, h⟩ := w.next_bind .reachable h
  obtain ⟨σ₆, w, h⟩ := Laid.when_bind (bind_assoc _ _ _).symm (fun _ => w) (fun _ _ h =>
    w.run (.bind (.release held) fun _ => .branch (Set.mem_singleton stop)) h (by simp)) h
  replace h := w.covers_bind h
  generalize (σ₆.regions.region region).covers σ₆.code = b at h
  cases b with
  | false => exact (w.join (Set.mem_insert _ _) h).close (by simp) .inr
  | true =>
    obtain ⟨l, σ₈, hl, w, h⟩ := w.newLabel_bind h
    obtain ⟨_, σ₉, h₉, h⟩ := bind_eq_ok_iff.1 h
    obtain ⟨_, σ₁₀, h₁₀, h⟩ := bind_eq_ok_iff.1 h
    have w := w.handler hl hregion h₉ h₁₀
    obtain ⟨caught, σ₁₁, w, h⟩ := w.next_bind (.temp _ _) h
    obtain ⟨_, σ₁₂, w, h⟩ := w.next_bind (.store caught) h
    obtain ⟨_, σ₁₃, w, h⟩ := w.next_bind (.release held) h
    obtain ⟨_, σ₁₄, w, h⟩ := w.next_bind (.load caught) h
    obtain ⟨_, σ₁₅, w, h⟩ := w.next_bind (.emit rfl) h
    exact (w.join (Set.mem_insert _ _) h).close (by simp) .inr

end Embeds

end Classwright.Lowering
