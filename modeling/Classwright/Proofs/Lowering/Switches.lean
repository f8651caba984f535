import Classwright.Proofs.Lowering.Dispatch
import Classwright.Proofs.Lowering.Scoping

/-!
Switches keep to themselves.

A dispatch refers to the labels of the arms and to the default, whatever the subject is. The arms
are laid out behind it, each behind the label that is resolved there.
-/

namespace Classwright.Lowering

open List

variable {α β γ : Type} {env : Env} {σ σ' τ τ' : State} {T E A X : Set Label}
  {l default stop : Label}
  {u : Unit} {subject : Operand} {arms : List (Arm × Label)} {P : State → State → Prop}
    {p q s : Prop}
  {keys : List (Expr × Label)}

lemma join_appends (h : join l env σ = .ok (u, σ')) : σ.code.Appends σ'.code := by
  have hkeeps := (join_emits h).code.toExtends
  obtain ⟨c, hc, rfl⟩ := onCode?_eq_ok_iff.1 h
  obtain ⟨-, err, rfl, -⟩ := Code.join_eq_ok hc
  exact ⟨hkeeps, le_rfl, fun _ => .inl⟩

/-- What is lowered behind other code, with the constants and slots of both. -/
structure Follows (σ σ' : State) : Prop extends Grows σ σ' where
  appends : σ.code.Appends σ'.code

namespace Follows

lemma refl (σ : State) : Follows σ σ := ⟨⟨.refl _, rfl, .refl σ⟩, .refl _⟩

lemma trans (h : Follows σ τ) (h' : Follows τ σ') : Follows σ σ' :=
  ⟨h.toGrows.trans h'.toGrows, h.appends.trans h'.appends⟩

lemma of_within (w : Within T E A σ τ) (hy : τ.yields = σ.yields) : Follows σ τ :=
  ⟨⟨w.assembles, hy, w.supply⟩, w.appends⟩

lemma of_join (hl : l.id < σ.code.labels.size) (h : join l env σ = .ok (u, σ')) : Follows σ σ' :=
  ⟨.join hl h, join_appends h⟩

end Follows

/-- Labels leave all but the code as it is, and add nothing to that. -/
lemma labels_emit {xs : List γ} {ys : List (γ × Label)}
    (h : (xs.mapM fun x => do return (x, ← newLabel) : Lower _) env σ = .ok (ys, σ')) :
    Emits σ σ' ∧ Grows σ σ' ∧ σ'.code.size = σ.code.size := by
  induction xs generalizing σ ys with
  | nil =>
    obtain ⟨-, rfl⟩ := pure_eq_ok_iff.1 h
    exact ⟨.refl σ, (Follows.refl σ).toGrows, rfl⟩
  | cons x xs ih =>
    rw [mapM_cons] at h
    obtain ⟨y, τ, hy, h⟩ := bind_eq_ok_iff.1 h
    obtain ⟨l, τ', hl, hy⟩ := bind_eq_ok_iff.1 hy
    obtain ⟨-, rfl⟩ := pure_eq_ok_iff.1 hy
    obtain ⟨zs, σ₁, hzs, h⟩ := bind_eq_ok_iff.1 h
    obtain ⟨-, rfl⟩ := pure_eq_ok_iff.1 h
    obtain ⟨hemits, hgrows, hsize⟩ := ih hzs
    exact ⟨(newLabel_emits hl).trans hemits, (Grows.newLabel hl).trans hgrows,
      hsize.trans (size_newLabel hl)⟩

lemma Follows.of_labels {xs : List γ} {ys : List (γ × Label)}
    (h : (xs.mapM fun x => do return (x, ← newLabel) : Lower _) env σ = .ok (ys, σ')) :
    Follows σ σ' := by
  obtain ⟨hemits, hgrows, hsize⟩ := labels_emit h
  exact ⟨hgrows, hemits.code.toExtends, hsize.ge, fun g hg => .inl (hemits.guards ▸ hg)⟩

namespace Lays

/-- Labels for some things, in order. -/
lemma labels {xs : List γ} {ys : List (γ × Label)} (w : Lays T E A σ τ)
    (h : (xs.mapM fun x => do return (x, ← Lowering.newLabel) : Lower _) env τ = .ok (ys, τ')) :
    Lays T (E ∪ {l | l ∈ ys.map Prod.snd}) A σ τ' ∧ ys.map Prod.fst = xs ∧ (ys.map Prod.snd).Nodup ∧
      ∀ l ∈ ys.map Prod.snd, l ∉ E := by
  induction xs generalizing E τ ys with
  | nil =>
    obtain ⟨rfl, rfl⟩ := pure_eq_ok_iff.1 h
    exact ⟨by simpa using w, rfl, .nil, by simp⟩
  | cons x xs ih =>
    rw [mapM_cons] at h
    obtain ⟨y, τ₁, hy, h⟩ := bind_eq_ok_iff.1 h
    obtain ⟨l, τ₂, hl, hy⟩ := bind_eq_ok_iff.1 hy
    obtain ⟨rfl, rfl⟩ := pure_eq_ok_iff.1 hy
    obtain ⟨zs, τ₃, hzs, h⟩ := bind_eq_ok_iff.1 h
    obtain ⟨rfl, rfl⟩ := pure_eq_ok_iff.1 h
    obtain ⟨w, hnew⟩ := w.newLabel hl
    obtain ⟨w, hfst, hnodup, hE⟩ := ih w hzs
    refine ⟨?_, by simp [hfst], ?_, ?_⟩
    · convert w using 1
      ext k
      simp only [map_cons, mem_cons, Set.mem_union, Set.mem_ofPred_eq, Set.mem_insert_iff]
      tauto
    · exact nodup_cons.2 ⟨fun hmem => hE l hmem (Set.mem_insert l E), hnodup⟩
    · intro k hk hkE
      rcases mem_cons.1 hk with rfl | hk
      · exact hnew hkE
      · exact hE k hk (.inr hkE)

/-- What comes first and is followed by more. -/
lemma follow_bind {x : Lower α} {f : α → Lower β} {b : β} (w : Lays T E A σ τ) (hx : Tidy env X x)
    (hX : ∀ l ∈ X, l ∈ T ∨ l ∈ E ∨ l ∈ A) (h : (x >>= f) env τ = .ok (b, τ')) :
    ∃ r τ₁, x env τ = .ok (r, τ₁) ∧ Follows τ τ₁ ∧ Lays T E A σ τ₁ ∧ f r env τ₁ = .ok (b, τ') := by
  obtain ⟨r, τ₁, hx', h⟩ := bind_eq_ok_iff.1 h
  obtain ⟨w', w₁⟩ := w.within hx hx' hX
  exact ⟨r, τ₁, hx', .of_within w' (w₁.yields.trans w.yields.symm), w₁, h⟩

end Lays

/-- What is laid out behind a label. -/
lemma Laid.lay {x : Lower Unit} (w : Laid P p T E A σ τ) (hl : l ∈ E) (hx : Embeds env P q X x)
    (hX : ∀ k ∈ X, k ∈ T ∨ k ∈ E ∧ k ≠ l ∨ k ∈ A)
    (h : (Lowering.join l >>= fun _ => x) env τ = .ok (u, τ')) :
    Laid P (p ∨ q) T (E \ {l}) A σ τ' ∧ Follows τ τ' := by
  obtain ⟨_, τ₁, hj, h⟩ := bind_eq_ok_iff.1 h
  have w₁ := w.join hl hj
  obtain ⟨w', w₂⟩ := w₁.toLays.within hx.tidy h hX
  have hf : Follows τ τ₁ := .of_join (w.waiting l hl).2.1 hj
  exact ⟨w₁.embed hx h hX, hf.trans (.of_within w' (w₂.yields.trans w₁.yields.symm))⟩

/-- What is laid out in order, each behind its label. -/
lemma Laid.forM_lay {ys : List (γ × Label)} {g : γ × Label → Lower Unit}
    (hg : Along (fun q y => Embeds env P q X (g y)) q ys) (w : Laid P p T E A σ τ)
    (hE : ∀ l ∈ ys.map Prod.snd, l ∈ E) (hnodup : (ys.map Prod.snd).Nodup)
    (hX : ∀ k ∈ X, k ∈ T ∨ k ∈ E ∧ k ∉ ys.map Prod.snd ∨ k ∈ A)
    (h : ys.forM (fun y => Lowering.join y.2 >>= fun _ => g y) env τ = .ok (u, τ')) :
    Laid P (p ∨ q) T (E \ {l | l ∈ ys.map Prod.snd}) A σ τ' ∧ Follows τ τ' := by
  induction hg generalizing E τ p with
  | nil hq =>
    obtain ⟨-, rfl⟩ := pure_eq_ok_iff.1 h
    exact ⟨by simpa [hq] using w, .refl _⟩
  | @cons q₁ q₂ q y ys hy _ hq ih =>
    obtain ⟨_, τ₁, hj, h⟩ := bind_eq_ok_iff.1 h
    obtain ⟨hnot, hnodup⟩ := nodup_cons.1 hnodup
    obtain ⟨w, hf⟩ := w.lay (hE y.2 mem_cons_self) hy
      (fun k hk => (hX k hk).imp_right (Or.imp_left fun ⟨hkE, hkn⟩ =>
        ⟨hkE, fun heq => hkn (by simp [heq])⟩)) hj
    obtain ⟨w, hf'⟩ := ih w
      (fun k hk => ⟨hE k (mem_cons_of_mem _ hk), fun heq =>
        hnot (Set.mem_singleton_iff.1 heq ▸ hk)⟩) hnodup
      (fun k hk => (hX k hk).imp_right (Or.imp_left fun ⟨hkE, hkn⟩ =>
        ⟨⟨hkE, fun heq => hkn (mem_cons.2 (.inl heq))⟩, fun hk => hkn (mem_cons_of_mem _ hk)⟩)) h
    refine ⟨?_, hf.trans hf'⟩
    convert w.imp fun hpq : p ∨ q => or_assoc.2 (hpq.imp_right hq) using 1
    ext k
    simp only [map_cons, mem_cons, Set.mem_sdiff, Set.mem_ofPred_eq, Set.mem_singleton_iff]
    tauto

/-! ### Dispatch -/

namespace Tidy

lemma intSwitch {cases : List (Int × Label)}
    (hb : ∀ c ∈ cases, -2147483648 ≤ c.1 ∧ c.1 ≤ 2147483647) (hd : default ∈ X)
    (hc : ∀ c ∈ cases, c.2 ∈ X) : Tidy env X (intSwitch cases default) := by
  intro σ u σ' hk h
  rcases intSwitch_eq_ok hb h with ⟨e, c, hfit, hl, -, hc', rfl⟩ | ⟨-, τ, hpop, hgoto⟩
  · have hX (l : Label) (hmem : l ∈ e.labels) : l ∈ X := by
      rcases hl l hmem with rfl | ⟨k, hk, rfl⟩
      · exact hd
      · exact hc k hk
    have w := Within.emission hfit (fun l hmem => hk l (.inl (hX l hmem))) hc'
    exact ⟨w.mono (fun l hmem => .inl (hX l hmem)) hk, rfl⟩
  · have htidy : Tidy env X (Lowering.emit .pop >>= fun _ => Lowering.branch .goto default) :=
      .bind (.emit rfl) fun _ => .branch hd
    exact htidy σ u σ' hk (bind_eq_ok_iff.2 ⟨_, τ, hpop, hgoto⟩)

end Tidy

/-- The subject of a switch, as a value of whichever type. -/
def Evaluates (env : Env) (P : State → State → Prop) (p : Prop) (subject : Operand) : Prop :=
  ∀ X ty, Embeds env P p X (subject.as ty)

lemma Operand.Tidy.evaluates (hs : subject.Tidy env) : Evaluates env P False subject :=
  fun _ ty => (hs.as ty).embeds

lemma Embeds.intDispatch (hs : Evaluates env P p subject) (hd : default ∈ X)
    (ha : ∀ a ∈ arms, a.2 ∈ X) : Embeds env P p X (intDispatch subject arms default) := by
  intro σ u σ' hk h
  obtain ⟨all, τ, hkeys, h⟩ := bind_eq_ok_iff.1 h
  obtain ⟨rfl, cases, rfl, hkeyed, -⟩ := intKeys_eq_ok hkeys
  rw [append_nil, reverse_reverse] at h
  have hcases (c : Int × Label) (hc : c ∈ cases) : c.2 ∈ X := by
    obtain ⟨arm, harm, -⟩ := hkeyed.mem_iff.1 hc
    exact ha _ harm
  have hembeds : Embeds env P p X (subject.as (.prim .int) >>= fun _ => intSwitch cases default) :=
    .before (hs _ _) fun _ => .intSwitch hkeyed.bounds hd hcases
  exact hembeds σ u σ' hk h

/-- The texts that an arm is for. -/
def Arm.texts (a : Arm) : List String := a.keys.filterMap Expr.text?

/-- Keys and labels with the keys as texts, no two of which are the same. -/
structure Spelled (keys : List (Expr × Label)) (cases : List (String × Label)) : Prop where
  values : keys.map (fun k => (k.1.text?, k.2)) = cases.map fun c => (some c.1, c.2)
  distinct : (cases.map Prod.fst).Nodup

lemma Spelled.mem_iff {cases : List (String × Label)} {v : String}
    (h : Spelled (labelKeys arms) cases) :
    (v, l) ∈ cases ↔ ∃ arm, (arm, l) ∈ arms ∧ v ∈ arm.texts :=
  mem_iff_of_labelKeys h.values

lemma stringKeys_eq_ok {done all : List (String × Label)}
    (h : stringKeys done keys env σ = .ok (all, σ')) :
    σ = σ' ∧ ∃ cases, all = cases.reverse ++ done ∧ Spelled keys cases ∧
    ∀ c ∈ cases, ∀ d ∈ done, c.1 ≠ d.1 := by
  induction keys generalizing done with
  | nil =>
    obtain ⟨rfl, rfl⟩ := pure_eq_ok_iff.1 h
    exact ⟨rfl, [], rfl, ⟨rfl, .nil⟩, by simp⟩
  | cons key keys ih =>
    -- Any other key is a mismatch.
    obtain ⟨e, l⟩ := key
    match e with
    | .const ⟨ty, .str s⟩ =>
      obtain ⟨hdone, h⟩ := unless_eq_ok h
      obtain ⟨rfl, cases, rfl, hspelled, hnew⟩ := ih h
      obtain ⟨hdistinct, hnew⟩ := distinct_cons hdone hspelled.distinct hnew
      exact ⟨rfl, (s, l) :: cases, by simp,
        ⟨congrArg ((some s, l) :: ·) hspelled.values, hdistinct⟩, hnew⟩

lemma mem_labelKeys {k : Expr × Label} (h : k ∈ labelKeys arms) : ∃ a ∈ arms, a.2 = k.2 := by
  obtain ⟨a, ha, hk⟩ := mem_flatMap.1 h
  obtain ⟨key, -, rfl⟩ := mem_map.1 hk
  exact ⟨a, ha, rfl⟩

/-- The comparisons of a text with keys of the same hash. -/
def tryStrings (held : Local) (keys : List (String × Label)) (default : Label) : Lower Unit := do
  keys.forM (tryString held)
  branch .goto default

namespace Tidy

lemma tryString (held : Local) {key : String × Label} (hl : key.2 ∈ X) :
    Tidy env X (tryString held key) :=
  .bind (.load held) fun _ => .bind (.of_straight (.pooling (Pool.adds_str _))) fun _ =>
    .bind (.of_straight (.loadConst _)) fun _ => .bind (.invoke rfl) fun _ => .branch hl

/-- The comparisons of a text with some keys, one after another. -/
lemma tryStrings (held : Local) {keys : List (String × Label)} (hk : ∀ k ∈ keys, k.2 ∈ X)
    (hd : default ∈ X) : Tidy env X (tryStrings held keys default) :=
  .bind (.forM fun k hmem => .tryString held (hk k hmem)) fun _ => .branch hd

end Tidy

/-- The course of a dispatch on a text that is lowered from `τ` to `τ'`. The subject is put into a
slot, and its hash selects one of some labels. Behind each of them, it is compared with the keys of
one hash. -/
structure TextCourse (T E : Set Label) (env : Env) (subject : Operand) (arms : List (Arm × Label))
    (default : Label) (σ τ τ' : State) where
  keys : List (String × Label)
  held : Local
  buckets : List (Int32 × Label)
  begun : State
  tested : State
  stored : State
  loaded : State
  hashed : State
  labelled : State
  switched : State
  spelled : Spelled (labelKeys arms) keys
  keys_mem : ∀ key ∈ keys, key.2 ∈ T ∨ key.2 ∈ E
  default_mem : default ∈ T ∨ default ∈ E
  slot : held.slot = τ.next
  room : held.slot < tested.maxLocals
  begins : Lays T E ∅ σ begun
  evaluates : subject.as .string env begun = .ok ((), tested)
  lays_tested : Lays T E ∅ σ tested
  stores : store held env tested = .ok ((), stored)
  loads : load held env stored = .ok ((), loaded)
  calls : invokeVirtual "java/lang/String" "hashCode" "()I" env loaded = .ok ((), hashed)
  labels : ((hashes keys).mapM fun h => do return (h, ← newLabel) : Lower _) env hashed =
    .ok (buckets, labelled)
  hashes_eq : buckets.map Prod.fst = hashes keys
  distinct : (buckets.map Prod.snd).Nodup
  fresh : ∀ l ∈ buckets.map Prod.snd, l ∉ E
  lays_labelled : Lays T (E ∪ {l | l ∈ buckets.map Prod.snd}) ∅ σ labelled
  enters : Follows tested labelled
  switches : intSwitch (buckets.map fun b => (b.1.toInt, b.2)) default env labelled =
    .ok ((), switched)
  lays_switched : Lays T (E ∪ {l | l ∈ buckets.map Prod.snd}) ∅ σ switched
  follows : Follows labelled switched
  compares : buckets.forM (fun b => join b.2 >>= fun _ =>
    tryStrings held (keys.filter fun k => Text.hash k.1 == b.1) default) env switched = .ok ((), τ')

/-- The hashes of keys are values of `int`. -/
lemma bounds_buckets (buckets : List (Int32 × Label)) : ∀ c ∈ buckets.map fun b => (b.1.toInt, b.2),
    -2147483648 ≤ c.1 ∧ c.1 ≤ 2147483647 := by
  intro c hc
  obtain ⟨b, -, rfl⟩ := mem_map.1 hc
  exact ⟨b.1.le_toInt, Int.le_of_lt_add_one b.1.toInt_lt⟩

lemma stringDispatch_eq_ok (w : Lays T E ∅ σ τ) (hs : Tidy env ∅ (subject.as .string))
    (hd : default ∈ T ∨ default ∈ E) (ha : ∀ a ∈ arms, a.2 ∈ T ∨ a.2 ∈ E)
    (h : stringDispatch subject arms default env τ = .ok (u, τ')) :
    Nonempty (TextCourse T E env subject arms default σ τ τ') := by
  obtain ⟨all, σ₀, hkeys, h⟩ := bind_eq_ok_iff.1 h
  obtain ⟨rfl, keys, rfl, hspelled, -⟩ := stringKeys_eq_ok hkeys
  rw [append_nil, reverse_reverse] at h
  have hmem (key : String × Label) (hkey : key ∈ keys) : key.2 ∈ T ∨ key.2 ∈ E := by
    obtain ⟨arm, harm, -⟩ := hspelled.mem_iff.1 hkey
    exact ha _ harm
  obtain ⟨held, σ₁, hheld, w₁, h⟩ := w.run_bind (.temp (X := ∅) _ _) (by simp) h
  obtain ⟨hslot, hroom⟩ := temp_eq_ok hheld
  obtain ⟨_, σ₂, h₂, f₂, w₂, h⟩ := w₁.follow_bind hs (by simp) h
  obtain ⟨_, σ₃, h₃, f₃, w₃, h⟩ := w₂.follow_bind (X := ∅) (.store held) (by simp) h
  obtain ⟨_, σ₄, h₄, f₄, w₄, h⟩ := w₃.follow_bind (X := ∅) (.load held) (by simp) h
  obtain ⟨_, σ₅, h₅, f₅, w₅, h⟩ := w₄.follow_bind (X := ∅) (.invoke rfl) (by simp) h
  obtain ⟨buckets, σ₆, h₆, h⟩ := bind_eq_ok_iff.1 h
  obtain ⟨w₆, hfst, hnodup, hfresh⟩ := w₅.labels h₆
  have hcases : Tidy env (insert default {l | l ∈ buckets.map Prod.snd})
      (Lowering.intSwitch (buckets.map fun b => (b.1.toInt, b.2)) default) := by
    refine .intSwitch (bounds_buckets buckets) (Set.mem_insert _ _) fun c hc => .inr ?_
    obtain ⟨b, hb, rfl⟩ := mem_map.1 hc
    exact mem_map.2 ⟨b, hb, rfl⟩
  obtain ⟨_, σ₇, h₇, f₇, w₇, h⟩ := w₆.follow_bind hcases (by
    rintro l (rfl | hl)
    · exact hd.imp_right fun hd => .inl (.inl hd)
    · exact .inr (.inl (.inr hl))) h
  exact ⟨⟨keys, held, buckets, σ₁, σ₂, σ₃, σ₄, σ₅, σ₆, σ₇, hspelled, hmem, hd, hslot,
    hroom.trans_le f₂.supply.locals, w₁, h₂, w₂, h₃, h₄, h₅, h₆, hfst, hnodup, hfresh, w₆,
    f₃.trans (f₄.trans (f₅.trans (.of_labels h₆))), h₇, w₇, f₇, h⟩⟩

/-- The comparisons follow the dispatch on the hash, and resolve the labels of that. -/
lemma TextCourse.compared (k : TextCourse T E env subject arms default σ τ τ') :
    Lays T ((E ∪ {l | l ∈ k.buckets.map Prod.snd}) \ {l | l ∈ k.buckets.map Prod.snd}) ∅ σ τ' ∧
      Follows k.switched τ' := by
  have hX (l : Label) (hl : l ∈ insert default {l | l ∈ k.keys.map Prod.snd}) : l ∈ T ∨
      l ∈ E ∪ {l | l ∈ k.buckets.map Prod.snd} ∧ l ∉ k.buckets.map Prod.snd ∨
        l ∈ (∅ : Set Label) := by
    have hl : l ∈ T ∨ l ∈ E := by
      rcases hl with rfl | hl
      · exact k.default_mem
      · obtain ⟨key, hkey, rfl⟩ := mem_map.1 hl
        exact k.keys_mem key hkey
    exact hl.imp_right fun hl => .inl ⟨.inl hl, fun hmem => k.fresh l hmem hl⟩
  have hkeys (b : Int32 × Label) : Tidy env (insert default {l | l ∈ k.keys.map Prod.snd})
      (tryStrings k.held (k.keys.filter fun key => Text.hash key.1 == b.1) default) :=
    .tryStrings k.held (fun key hkey => .inr (mem_map_of_mem (mem_filter.1 hkey).1))
      (Set.mem_insert _ _)
  obtain ⟨w, hf⟩ := Laid.forM_lay (P := fun _ _ => True) (.of_forall fun b _ => (hkeys b).embeds)
    (.of_lays k.lays_switched) (fun l hl => .inr hl) k.distinct hX k.compares
  exact ⟨w.toLays, hf⟩

lemma TextCourse.follows_tested (k : TextCourse T E env subject arms default σ τ τ') :
    Follows k.tested τ' :=
  k.enters.trans (k.follows.trans k.compared.2)

lemma Tidy.tryConstants (held : Local) (type : ClassTy) (hk : ∀ k ∈ keys, k.2 ∈ X)
    (done : List String) : Tidy env X (tryConstants held type done keys) := by
  induction keys generalizing done with
  | nil => exact .pure _
  | cons key keys ih =>
    unfold Lowering.tryConstants
    split
    · refine .orFail (.orFail (.bind (.load held) fun _ =>
        .bind (Operand.Embeds.staticOperand (P := fun _ _ => True) _ _ _).value.tidy fun _ =>
          .bind (.branch (hk key mem_cons_self)) fun _ => ?_))
      exact ih (fun k hmem => hk k (mem_cons_of_mem _ hmem)) _
    · exact .mismatch _

namespace Embeds

variable (hs : Evaluates env P p subject) (hd : default ∈ X) (ha : ∀ a ∈ arms, a.2 ∈ X)

include hs hd ha

/-- The keys of each hash are laid out behind a label of their own. -/
lemma stringDispatch : Embeds env P p X (stringDispatch subject arms default) := by
  intro σ u σ' hk h
  obtain ⟨k⟩ := stringDispatch_eq_ok (Lays.refl hk) (hs _ _).tidy (.inl (.inl hd))
    (fun a hmem => .inl (.inl (ha a hmem))) h
  have w := (Laid.of_lays k.begins).embed (hs ∅ _) k.evaluates (by simp)
  exact (w.grow k.compared.1 k.follows_tested.toGrows).close (by simp) .inr

lemma enumDispatch (type : ClassTy) :
    Embeds env P p X (enumDispatch subject type arms default) := by
  refine .after (.temp _ _) fun held => .before (hs _ _) fun _ => .bind (.store held) fun _ =>
    .bind (.tryConstants held type (fun k hk => ?_) []) fun _ => .branch hd
  obtain ⟨a, hmem, heq⟩ := mem_labelKeys hk
  exact heq ▸ ha a hmem

lemma dispatch : Embeds env P p X (dispatch subject arms default) := by
  refine .after (.type subject) fun t => ?_
  dsimp only
  split
  · exact .intDispatch hs hd ha
  · exact .intDispatch hs hd ha
  · exact .intDispatch hs hd ha
  · exact .intDispatch hs hd ha
  · exact .fail _
  · refine .ite (fun _ => stringDispatch hs hd ha) fun _ => ?_
    split
    · exact .after .read fun _ => .ite (fun _ => enumDispatch hs hd ha _) fun _ => .fail _
    · exact .fail _

end Embeds

/-! ### Layout -/

/-- An arm and the jump behind the switch. -/
def armCode (stop : Label) (arm : Arm) : Lower Unit := do
  inScope arm.body
  if ← reachable then branch .goto stop

/-- The default behind its label. -/
def layDefault (other : Label) : Option (Lower Unit) → Lower Unit
  | none => pure ()
  | some body => join other >>= fun _ => inScope body

/-- The course of lowering a switch: labels are made for the arms, for the default and for the end,
and the parts of the switch follow in order. Without a default, the label of the default is that of
the end. -/
structure Course (T : Set Label) (env : Env) (subject : Operand) (arms : List Arm)
    (default : Option (Lower Unit)) (σ σ' : State) where
  labelled : List (Arm × Label)
  stop : Label
  other : Label
  begun : State
  dispatched : State
  armed : State
  ended : State
  arms_eq : labelled.map Prod.fst = arms
  distinct : (labelled.map Prod.snd).Nodup
  stop_notMem : stop ∉ labelled.map Prod.snd
  other_notMem : other ∉ labelled.map Prod.snd
  other_eq_iff : other = stop ↔ default = none
  next_eq : begun.next = σ.next
  begins : Lays T (insert stop (insert other {l | l ∈ labelled.map Prod.snd})) ∅ σ begun
  dispatches : inScope (dispatch subject labelled other) env begun = .ok ((), dispatched)
  lays : labelled.forM (layArm stop) env dispatched = .ok ((), armed)
  defaults : layDefault other default env armed = .ok ((), ended)
  ends : join stop env ended = .ok ((), σ')

section

variable {arms : List Arm} {default : Option (Lower Unit)}

lemma select_eq_ok (w : Lays T ∅ ∅ σ σ) (h : select subject arms default env σ = .ok (u, σ')) :
    Nonempty (Course T env subject arms default σ σ') := by
  obtain ⟨labelled, σ₁, h₁, h⟩ := bind_eq_ok_iff.1 h
  obtain ⟨w, harms, hnodup, -⟩ := w.labels h₁
  rw [Set.empty_union] at w
  obtain ⟨stop, σ₂, h₂, h⟩ := bind_eq_ok_iff.1 h
  obtain ⟨w, hstop⟩ := w.newLabel h₂
  have hnext : σ₂.next = σ.next := by rw [((labels_emit h₁).1.trans (newLabel_emits h₂)).rest]
  cases default with
  | none =>
    obtain ⟨_, σ₃, h₃, h⟩ := bind_eq_ok_iff.1 h
    obtain ⟨_, σ₄, h₄, h⟩ := bind_eq_ok_iff.1 h
    exact ⟨⟨labelled, stop, stop, σ₂, σ₃, σ₄, σ₄, harms, hnodup, hstop, hstop, by simp, hnext,
      by simpa using w, h₃, h₄, rfl, h⟩⟩
  | some body =>
    obtain ⟨other, σ₃, h₃, h⟩ := bind_eq_ok_iff.1 h
    obtain ⟨w, hother⟩ := w.newLabel h₃
    obtain ⟨hne, hmem⟩ := not_or.1 hother
    have hnext : σ₃.next = σ.next := by rw [(newLabel_emits h₃).rest, hnext]
    obtain ⟨_, σ₄, h₄, h⟩ := bind_eq_ok_iff.1 h
    obtain ⟨_, σ₅, h₅, h⟩ := bind_eq_ok_iff.1 h
    obtain ⟨_, σ₆, h₆, h⟩ := bind_eq_ok_iff.1 h
    obtain ⟨_, σ₇, h₇, h⟩ := bind_eq_ok_iff.1 h
    exact ⟨⟨labelled, stop, other, σ₃, σ₄, σ₅, σ₇, harms, hnodup, hstop, hmem, by simp [hne], hnext,
      Set.insert_comm other stop _ ▸ w, h₄, h₅, bind_eq_ok_iff.2 ⟨_, σ₆, h₆, h₇⟩, h⟩⟩

lemma Embeds.armCode {arm : Arm} (h : Embeds env P p ∅ arm.body) (stop : Label) :
    Embeds env P p {stop} (armCode stop arm) :=
  .before (.inScope h.weaken) fun _ => .bind .reachable fun _ => .ite (.branch rfl) (.pure _)

namespace Course

variable (k : Course T env subject arms default σ σ')

/-- The labels of the arms. -/
def labels : Set Label := {l | l ∈ k.labelled.map Prod.snd}

section

variable (hs : Evaluates env P p subject)
  (harms : Along (fun q a => Embeds env P q ∅ a.body) q arms)

include hs

lemma laid_dispatched : Laid P p T (insert k.stop (insert k.other k.labels)) ∅ σ k.dispatched := by
  have hdispatch : Embeds env P p (insert k.other k.labels) (dispatch subject k.labelled k.other) :=
    .dispatch hs (Set.mem_insert _ _) fun a ha => .inr (mem_map_of_mem ha)
  exact ((Laid.of_lays k.begins).embed hdispatch.inScope k.dispatches fun l hl =>
    .inr (.inl (.inr hl))).imp .inr

include harms

lemma laid_armed : Laid P (p ∨ q) T (insert k.stop (insert k.other k.labels) \ k.labels) ∅ σ
    k.armed ∧ Follows k.dispatched k.armed := by
  have hbodies : Along (fun q y => Embeds env P q {k.stop} (armCode k.stop y.1)) q k.labelled :=
    .imp (.of_map (k.arms_eq.symm ▸ harms)) fun h => h.armCode k.stop
  refine Laid.forM_lay hbodies (k.laid_dispatched hs) (fun l hl => .inr (.inr hl)) k.distinct
    ?_ k.lays
  rintro l rfl
  exact .inr (.inl ⟨.inl rfl, k.stop_notMem⟩)

/-- Only the end waits to be resolved. -/
lemma laid_ended (hdef : Along (fun s b => Embeds env P s ∅ b) s default.toList) :
    Laid P ((p ∨ q) ∨ s) T {k.stop} ∅ σ k.ended ∧ Follows k.armed k.ended := by
  obtain ⟨w, -⟩ := k.laid_armed hs harms
  have hdefaults := k.defaults
  cases default with
  | none =>
    obtain ⟨-, heq⟩ := pure_eq_ok_iff.1 hdefaults
    have hother := k.other_eq_iff.2 rfl
    have hset : insert k.stop (insert k.other k.labels) \ k.labels = {k.stop} := by
      ext l
      simp only [hother, labels, Set.mem_sdiff, Set.mem_insert_iff, Set.mem_ofPred_eq,
        Set.mem_singleton_iff]
      have := k.stop_notMem
      grind
    cases hdef with
    | nil hnot =>
      rw [← heq]
      exact ⟨(hset ▸ w).imp (Or.resolve_right · hnot), .refl _⟩
  | some body =>
    have hother : k.other ≠ k.stop := fun heq => nomatch k.other_eq_iff.1 heq
    have hset : (insert k.stop (insert k.other k.labels) \ k.labels) \ {k.other} = {k.stop} := by
      ext l
      simp only [labels, Set.mem_sdiff, Set.mem_insert_iff, Set.mem_ofPred_eq,
        Set.mem_singleton_iff]
      have := k.stop_notMem
      grind
    cases hdef with
    | cons hbody hnone hor =>
      obtain ⟨w, hf⟩ :=
        w.lay (X := ∅) ⟨.inr (.inl rfl), k.other_notMem⟩ hbody.inScope (by simp) hdefaults
      cases hnone with
      | nil hnot => exact ⟨(hset ▸ w).imp (Or.imp_right fun h => (hor h).resolve_right hnot), hf⟩

end

variable (hs : subject.Tidy env) (harms : ∀ a ∈ arms, Tidy env ∅ a.body)

include hs harms

lemma lays_armed : Lays T (insert k.stop (insert k.other k.labels) \ k.labels) ∅ σ k.armed ∧
    Follows k.dispatched k.armed :=
  (k.laid_armed (P := fun _ _ => True) hs.evaluates
    (.of_forall fun a ha => (harms a ha).embeds)).imp_left Laid.toLays

lemma lays_ended (hdef : ∀ b ∈ default, Tidy env ∅ b) :
    Lays T {k.stop} ∅ σ k.ended ∧ Follows k.armed k.ended :=
  (k.laid_ended (P := fun _ _ => True) hs.evaluates (.of_forall fun a ha => (harms a ha).embeds)
    (.of_forall fun b hb => (hdef b (Option.mem_toList.1 hb)).embeds)).imp_left Laid.toLays

end Course

lemma Embeds.select (hs : Evaluates env P p subject)
    (harms : Along (fun q a => Embeds env P q ∅ a.body) q arms)
    (hdef : Along (fun s b => Embeds env P s ∅ b) s default.toList) :
    Embeds env P (p ∨ q ∨ s) X (select subject arms default) := by
  intro σ u σ' hk h
  obtain ⟨k⟩ := select_eq_ok (Lays.refl hk) h
  exact ((k.laid_ended hs harms hdef).1.join rfl k.ends).close (by simp) or_assoc.2

end

end Classwright.Lowering
