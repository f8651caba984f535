import Classwright.Proofs.Lowering.Switches

/-!
Where the parts of a switch are.

A part of a method is surrounded by what is lowered before and after it (`Surrounded`). Each arm of
a switch begins where its label is resolved, and control stays in its code until it goes behind the
switch (`Part.confined`).
-/

namespace Classwright

namespace Code

variable {b : Limits} {x y : Code × Set Nat}

/-- Code of the assembler: branches reach their labels, tables refer to theirs, and protected ranges
are complete. -/
structure Built (c : Code) : Prop where
  laid : c.Laid
  far : ∀ i ∈ c.items, ∀ l ∈ i.farLabels, c.Referred l
  complete : ∀ g ∈ c.guards, c.position? g.stop ≠ none

lemma built_empty : empty.Built := ⟨laid_empty, by simp [empty], by simp [empty]⟩

lemma Advances.built (h : Advances b x y) (hsize : y.1.size ≤ 65535) (hx : x.1.Built) :
    y.1.Built where
  laid := h.laid hsize hx.laid
  far := h.far hx.far
  complete g hg := by
    rcases h.guards g hg with hg | hg
    · obtain ⟨q, hq⟩ := Option.ne_none_iff_exists'.1 (hx.complete g hg)
      simp [h.keeps.position hq]
    · exact hg.stop

end Code

/-- Extents that follow each other between two offsets. -/
def Stretch : Nat → List (Nat × Nat) → Nat → Prop
  | a, [], b => a ≤ b
  | a, x :: xs, b => a ≤ x.1 ∧ x.1 ≤ x.2 ∧ Stretch x.2 xs b

variable {xs : List (Nat × Nat)}

lemma Stretch.append {a b : Nat} (h : Stretch a xs b) {x : Nat × Nat} (hb : b ≤ x.1)
    (hx : x.1 ≤ x.2) : Stretch a (xs ++ [x]) x.2 := by
  induction xs generalizing a with
  | nil => exact ⟨le_trans h hb, hx, le_rfl⟩
  | cons y xs ih => exact ⟨h.1, h.2.1, ih h.2.2⟩

lemma Stretch.le {a b a' : Nat} (h : Stretch a xs b) (ha : a' ≤ a) : Stretch a' xs b := by
  cases xs with
  | nil => exact ha.trans h
  | cons x xs => exact ⟨ha.trans h.1, h.2⟩

namespace Lowering

variable {γ : Type} {env : Env} {σ σ' τ τ' first last : State} {T E : Set Label} {l stop : Label}
  {u : Unit} {x : Lower Unit} {bs : Bytes} {rows : List ExceptionEntry}

/-- What is around a part of a method that is lowered from `σ` to `σ'`: the method is lowered up to
there, and from there to `τ`. Values of blocks around are returned behind the part. -/
structure Surrounded (σ σ' τ : State) : Prop where
  before : Code.empty.Assembles σ.code
  stops : ∀ l ∈ σ.stops, l.id < σ.code.labels.size ∧ σ.code.position? l = none
  after : σ'.code.Assembles τ.code

namespace Surrounded

variable (h : Surrounded σ σ' τ)

include h

lemma keeps : σ'.code.Extends τ.code := h.after.keeps

lemma size_le : σ'.code.size ≤ τ.code.size := h.after.advances.size

lemma built (hsize : σ.code.size ≤ 65535) : σ.code.Built :=
  h.before.advances.built hsize Code.built_empty

/-- A label that is not resolved within the part is behind it. -/
lemma behind (hl : σ'.code.position? l = none) {q : Nat} (hq : τ.code.position? l = some q) :
    σ'.code.size ≤ q :=
  (h.after.advances.placed hq).resolve_left (by simp [hl])

end Surrounded

/-- What is around a part of a method, with the constants and slots of the part: what comes before
leaves a coherent pool, and what comes after keeps what the part has added. -/
structure Provided (σ σ' τ : State) : Prop extends Surrounded σ σ' τ where
  coherent : σ.pool.Coherent
  supplies : Supplies σ' τ

lemma Within.built {A : Set Label} (w : Within T E A σ τ) (hsize : τ.code.size ≤ 65535)
    (h : σ.code.Built) : τ.code.Built := by
  obtain ⟨live, hadv⟩ := w.advances
  exact hadv.built hsize h

/-! ### Parts -/

/-- Something that is laid out behind a label while `stop` waits to be resolved, in what is lowered
from `τ` to `τ'`. -/
structure Part (T : Set Label) (env : Env) (stop : Label) (σ τ τ' : State) (l : Label)
    (x : Lower Unit) (first last : State) : Prop where
  tidy : Tidy env {stop} x
  lays : ∃ E, stop ∈ E ∧ Lays T E ∅ σ first
  start : first.code.position? l = some first.code.size
  opens : τ.code.Referred l → first.code.reachable
  done : x env first = .ok ((), last)
  rest : last.code.Appends τ'.code

/-- The offsets of what is lowered between two states. -/
def offsets (z : State × State) : Nat × Nat := (z.1.code.size, z.2.code.size)

lemma Lays.part (w : Lays T E ∅ σ τ) (hx : Tidy env {stop} x) (hstop : stop ∈ E) (hl : l ∈ E)
    (hne : stop ≠ l) (h : (Lowering.join l >>= fun _ => x) env τ = .ok (u, last))
    (hrest : last.code.Appends τ'.code) :
    ∃ first, Part T env stop σ τ τ' l x first last ∧ first.code.size = τ.code.size := by
  obtain ⟨_, first, hj, h⟩ := bind_eq_ok_iff.1 h
  obtain ⟨hat, hsize, hr⟩ := join_spec (w.waiting l hl).2.1 hj
  refine ⟨first, ⟨hx, ⟨E \ {l}, ⟨hstop, hne⟩, w.join hl hj⟩, ?_, fun href => hr (.inr href), h,
    hrest⟩, hsize⟩
  rw [hat, hsize]

/-- The parts of what is laid out in order, each behind its label. -/
lemma Lays.forM_parts {ys : List (γ × Label)} {g : γ → Lower Unit} (w : Lays T E ∅ σ τ)
    (hstop : stop ∈ E) (hg : ∀ y ∈ ys, Tidy env {stop} (g y.1)) (hE : ∀ l ∈ ys.map Prod.snd, l ∈ E)
    (hnodup : (ys.map Prod.snd).Nodup) (hnot : stop ∉ ys.map Prod.snd)
    (h : ys.forM (fun y => Lowering.join y.2 >>= fun _ => g y.1) env τ = .ok (u, τ')) :
    ∃ zs : List (State × State),
    List.Forall₂ (fun y z => Part T env stop σ τ τ' y.2 (g y.1) z.1 z.2) ys zs ∧
    Stretch τ.code.size (zs.map offsets) τ'.code.size := by
  induction ys generalizing E τ with
  | nil =>
    obtain ⟨-, rfl⟩ := pure_eq_ok_iff.1 h
    exact ⟨[], .nil, le_rfl⟩
  | cons y ys ih =>
    obtain ⟨_, τ₁, hy, h⟩ := bind_eq_ok_iff.1 h
    obtain ⟨hynot, hnodup'⟩ := List.nodup_cons.1 hnodup
    have hl := hE y.2 List.mem_cons_self
    have hne : stop ≠ y.2 := fun heq => hnot (by simp [heq])
    have hX : ∀ k ∈ ({stop} : Set Label), k ∈ T ∨ k ∈ E ∧ k ≠ y.2 ∨ k ∈ (∅ : Set Label) := by
      rintro k rfl
      exact .inr (.inl ⟨hstop, hne⟩)
    obtain ⟨w₁, hf⟩ :=
      (Laid.of_lays (P := fun _ _ => True) w).lay hl (hg y List.mem_cons_self).embeds hX hy
    have hg' (z : γ × Label) (hz : z ∈ ys) := hg z (List.mem_cons_of_mem y hz)
    have hE' : ∀ l ∈ ys.map Prod.snd, l ∈ E \ {y.2} := fun l hmem =>
      ⟨hE l (List.mem_cons_of_mem _ hmem), fun heq => hynot (Set.mem_singleton_iff.1 heq ▸ hmem)⟩
    have hnot' : stop ∉ ys.map Prod.snd := fun hmem => hnot (List.mem_cons_of_mem _ hmem)
    obtain ⟨-, hf'⟩ := Laid.forM_lay (.of_forall fun z hz => (hg' z hz).embeds) w₁ hE' hnodup'
      (by rintro k rfl; exact .inr (.inl ⟨⟨hstop, hne⟩, hnot'⟩)) h
    obtain ⟨zs, hzs, hstretch⟩ := ih w₁.toLays ⟨hstop, hne⟩ hg' hE' hnodup' hnot' h
    obtain ⟨first, hpart, hsize⟩ := w.part (hg y List.mem_cons_self) hstop hl hne hy hf'.appends
    refine ⟨(first, τ₁) :: zs, .cons hpart (hzs.imp fun k z hz => ?_), hsize.ge, ?_, hstretch⟩
    · exact ⟨hz.tidy, hz.lays, hz.start, fun href => hz.opens (hf.code.keeps.referred href),
        hz.done, hz.rest⟩
    · exact hsize.le.trans hf.appends.size

namespace Part

variable {ρ : State} (h : Part T env stop σ τ ρ l x first last)

include h

lemma within : Within ({stop} ∪ σ.stops) ∅ ∅ first last := by
  obtain ⟨E, hE, w⟩ := h.lays
  rw [← State.stops_eq w.yields]
  refine (h.tidy _ _ _ (fun k hk => ?_) h.done).1
  rcases hk with rfl | hk
  · exact (w.waiting _ hE).2.1
  · exact (w.known k (w.stops (State.stops_eq w.yields ▸ hk))).trans_le w.keeps.labels

lemma position? {c : Code} (hc : ρ.code.Extends c) : c.position? l = some first.code.size :=
  hc.position (h.rest.keeps.position (h.within.keeps.position h.start))

/-- Control stays in a part until it goes behind what is lowered from `σ` to `σ'`. -/
lemma confined (hrest : ρ.code.Appends σ'.code) (w : Within T ∅ ∅ σ σ') (hsur : Surrounded σ σ' τ')
    (hbuilt : τ'.code.Built) (hfin : τ'.code.finish = .ok (bs, rows))
    (hstop : τ'.code.position? stop = some σ'.code.size) (href : τ.code.Referred l)
    (hend : last.code.reachable → σ'.code.size ≤ last.code.size) :
    τ'.code.Confined rows σ'.code.size (offsets (first, last)) := by
  obtain ⟨E, hE, wf⟩ := h.lays
  obtain ⟨herror, -, hsize, -⟩ := Code.finish_eq_ok hfin
  have wx := h.within
  have happ : last.code.Appends σ'.code := h.rest.trans hrest
  have hopen (k : Label) (hk : k ∈ {stop} ∪ σ.stops) : first.code.position? k = none := by
    rcases hk with rfl | hk
    · exact (wf.waiting _ hE).2.2
    · obtain ⟨hlt, hn⟩ := hsur.stops k hk
      exact (wf.position?_eq hlt).trans hn
  -- No offset before the part matters to it: the labels it leaves by are not resolved yet.
  obtain ⟨S, hrun, -⟩ := wx.runs ∅ fun k hk hp => absurd (hopen k hk) hp
  have hafter := hsur.after.advances
  have hle : first.code.size ≤ τ'.code.size := wx.size_le.trans (happ.size.trans hsur.size_le)
  have hfirst : first.code.Built :=
    wf.built (hle.trans hsize) (hsur.built ((wf.size_le.trans hle).trans hsize))
  have hguards (g : Guard) (hg : g ∈ first.code.guards) :
      ∃ q ≤ first.code.size, first.code.position? g.stop = some q := by
    obtain ⟨q, hq⟩ := Option.ne_none_iff_exists'.1 (hfirst.complete g hg)
    exact ⟨q, hfirst.laid.position hq, hq⟩
  have hexits (k : Label) (hk : k ∈ {stop} ∪ σ.stops) (q : Nat)
      (hq : τ'.code.position? k = some q) :
      σ'.code.size ≤ q := by
    rcases hk with rfl | hk
    · exact (Option.some.inj (hstop.symm.trans hq)).le
    · obtain ⟨hlt, hn⟩ := hsur.stops k hk
      exact hsur.behind ((w.position?_eq hlt).trans hn) hq
  have hconf := hrun.confines happ hafter hfirst.laid.size hguards hbuilt.laid hbuilt.far hfin
    (fun k hk hr => wx.settled k hk (by simp) hr) hexits hend
  have htracks := hrun.tracks hfirst.laid.size ((happ.keeps.trans hsur.keeps).error herror)
  refine ⟨S, hconf, htracks.inside, ?_⟩
  rcases hrun.advances.reaches (.inr ⟨rfl, h.opens href⟩) with hin | ⟨heq, hr⟩
  · exact .inl hin
  · exact .inr ((hend hr).trans heq.ge)

end Part

/-! ### Switches -/

lemma armCode_unreachable {arm : Arm} (h : armCode stop arm env τ = .ok (u, τ')) :
    τ'.code.reachable = false := by
  obtain ⟨_, τ₁, -, h⟩ := bind_eq_ok_iff.1 h
  obtain ⟨r, τ₂, hr, h⟩ := bind_eq_ok_iff.1 h
  obtain ⟨hreach, rfl⟩ := reachable_eq_ok_iff.1 hr
  cases r with
  | false =>
    obtain ⟨-, rfl⟩ := pure_eq_ok_iff.1 h
    exact hreach
  | true =>
    rw [branch_eq_ok h]
    exact Bool.and_false _

/-- What is lowered between two states, to an extent of the code. -/
def Lowered (env : Env) (x : Lower Unit) (σ σ' : State) (y : Nat × Nat) : Prop :=
  ∃ τ τ', σ.code.Extends τ.code ∧ x env τ = .ok ((), τ') ∧ τ'.code.Extends σ'.code ∧
    offsets (τ, τ') = y

lemma Part.lowered {ρ : State} (h : Part T env stop σ τ ρ l x first last)
    (hρ : ρ.code.Extends σ'.code) : Lowered env x σ σ' (offsets (first, last)) := by
  obtain ⟨E, -, w⟩ := h.lays
  exact ⟨first, last, w.keeps, h.done, h.rest.keeps.trans hρ, rfl⟩

namespace Course

variable {subject : Operand} {arms : List Arm} {default : Option (Lower Unit)}
  (k : Course T env subject arms default σ σ') (hs : subject.Tidy env)
  (harms : ∀ a ∈ arms, Tidy env ∅ a.body) (hdef : ∀ b ∈ default, Tidy env ∅ b)

omit hs harms in
lemma forall₂_arms {β : Type} {R : Arm → β → Prop} {zs : List β}
    (h : List.Forall₂ (fun y z => R y.1 z) k.labelled zs) : List.Forall₂ R arms zs := by
  have := List.forall₂_map_left_iff.2 h
  rwa [k.arms_eq] at this

include k hs harms

/-- The arms are laid out in order. -/
lemma exists_parts : ∃ zs : List (State × State),
    List.Forall₂
      (fun y z => Part T env k.stop σ k.dispatched k.armed y.2 (armCode k.stop y.1) z.1 z.2)
      k.labelled zs ∧ Stretch k.dispatched.code.size (zs.map offsets) k.armed.code.size := by
  have hbodies (y : Arm × Label) (hy : y ∈ k.labelled) :
      Tidy env {k.stop} (armCode k.stop y.1) := by
    have hbody := harms y.1 (k.arms_eq ▸ List.mem_map_of_mem hy)
    exact (Embeds.armCode (P := fun _ _ => True) hbody.embeds k.stop).tidy
  have w := (k.laid_dispatched (P := fun _ _ => True) hs.evaluates).toLays
  exact w.forM_parts (.inl rfl) hbodies (fun l hl => .inr (.inr hl)) k.distinct
    k.stop_notMem k.lays

include hdef

/-- The end is resolved behind it all. -/
lemma ends_at : σ'.code.position? k.stop = some σ'.code.size ∧
    σ'.code.size = k.ended.code.size := by
  obtain ⟨w, -⟩ := k.lays_ended hs harms hdef
  obtain ⟨hat, hsize, -⟩ := join_spec (w.waiting _ rfl).2.1 k.ends
  exact ⟨hsize ▸ hat, hsize⟩

lemma within : Within T ∅ ∅ σ σ' :=
  (((k.lays_ended hs harms hdef).1.join rfl k.ends).close (by simp)).1

lemma appends : k.dispatched.code.Appends k.armed.code ∧ k.armed.code.Appends σ'.code :=
  ⟨(k.lays_armed hs harms).2.appends,
    (k.lays_ended hs harms hdef).2.appends.trans (join_appends k.ends)⟩

/-- The arms, the default and the end follow the dispatch. -/
lemma follows : Follows k.dispatched σ' :=
  (k.lays_armed hs harms).2.trans ((k.lays_ended hs harms hdef).2.trans
    (.of_join ((k.lays_ended hs harms hdef).1.waiting _ rfl).2.1 k.ends))

variable (hsur : Surrounded σ σ' τ) (hbuilt : τ.code.Built) (hfin : τ.code.finish = .ok (bs, rows))

include hsur hbuilt hfin

lemma confined_arm {y : Arm × Label} {z : State × State}
    (h : Part T env k.stop σ k.dispatched k.armed y.2 (armCode k.stop y.1) z.1 z.2) :
    τ.code.position? y.2 = some (offsets z).1 ∧
      (k.dispatched.code.Referred y.2 → τ.code.Confined rows σ'.code.size (offsets z)) := by
  obtain ⟨-, happ⟩ := k.appends hs harms hdef
  obtain ⟨hstop, -⟩ := k.ends_at hs harms hdef
  refine ⟨h.position? (happ.keeps.trans hsur.keeps), fun href => ?_⟩
  refine h.confined happ (k.within hs harms hdef) hsur hbuilt hfin (hsur.keeps.position hstop) href
    fun hr => ?_
  rw [armCode_unreachable h.done] at hr
  cases hr

/-- The default is laid out behind the arms; without one, there is nothing more. -/
lemma exists_other : ∃ x : Nat × Nat, k.armed.code.size ≤ x.1 ∧ x.1 ≤ x.2 ∧ x.2 = σ'.code.size ∧
    (∀ body ∈ default, Lowered env (inScope body) σ σ' x) ∧ (default = none → x.1 = σ'.code.size) ∧
    τ.code.position? k.other = some x.1 ∧
      (k.dispatched.code.Referred k.other → τ.code.Confined rows σ'.code.size x) := by
  obtain ⟨wa, hf⟩ := k.lays_armed hs harms
  obtain ⟨-, happ'⟩ := k.appends hs harms hdef
  obtain ⟨hstop, hsize⟩ := k.ends_at hs harms hdef
  cases default with
  | none =>
    rw [k.other_eq_iff.2 rfl]
    exact ⟨(σ'.code.size, σ'.code.size), happ'.size, le_rfl, rfl, by simp, fun _ => rfl,
      hsur.keeps.position hstop, fun _ => Code.confined_end _ _ _⟩
  | some body =>
    have hne : k.stop ≠ k.other := fun heq => nomatch k.other_eq_iff.1 heq.symm
    have hrest := join_appends k.ends
    obtain ⟨first, h, hfirst⟩ := wa.part (.inScope (hdef body rfl).weaken) ⟨.inl rfl, k.stop_notMem⟩
      ⟨.inr (.inl rfl), k.other_notMem⟩ hne k.defaults (.refl k.ended.code)
    refine ⟨offsets (first, k.ended), hfirst.ge, h.within.size_le, hsize.symm, ?_, by simp,
      h.position? (hrest.keeps.trans hsur.keeps), fun href => ?_⟩
    · rintro _ ⟨rfl⟩
      exact h.lowered hrest.keeps
    · exact h.confined hrest (k.within hs harms hdef) hsur hbuilt hfin (hsur.keeps.position hstop)
        (hf.code.keeps.referred href) fun _ => hsize.le

end Course

end Lowering

end Classwright
