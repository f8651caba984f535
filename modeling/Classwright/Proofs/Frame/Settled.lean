import Classwright.Proofs.Frame.Rewriting

/-!
Finished analyses.

`Body.Final` is what a finished analysis has found of the code of a method: every instruction that
was reached type-checks, and all that it sends on has arrived. `MethodCode.analyze_final` takes an
analysis that succeeds back to that.
-/

namespace Classwright

open List

/-! ### The start of an analysis -/

namespace Body

/-- Offsets are entered one by one, and later ones leave the others alone. -/
lemma join_foldl_index {l : List (Insn × Nat)} {index : Array (Option Nat)}
    (hne : l.Pairwise fun x y => x.1.offset ≠ y.1.offset) (hlt : ∀ x ∈ l, x.1.offset < index.size)
    (k n : Nat) : ((l.foldl (fun index (insn, n) => index.setIfInBounds insn.offset (some n))
    index)[k]?).join = some n ↔ (∃ i, (i, n) ∈ l ∧ i.offset = k) ∨ (∀ x ∈ l, x.1.offset ≠ k) ∧
    (index[k]?).join = some n := by
  induction l generalizing index with
  | nil => simp
  | cons x l ih =>
    obtain ⟨i, m⟩ := x
    rw [pairwise_cons] at hne
    have hi : i.offset < index.size := hlt (i, m) mem_cons_self
    rw [foldl_cons, ih hne.2 fun x hx => by simpa using hlt x (mem_cons_of_mem _ hx)]
    have hset : ((index.setIfInBounds i.offset (some m))[k]?).join =
        if i.offset = k then some m else (index[k]?).join := by
      rw [Array.getElem?_setIfInBounds]
      grind
    rw [hset]
    by_cases hk : i.offset = k
    · have hothers : ∀ y ∈ l, y.1.offset ≠ k := fun y hy he => hne.1 y hy (hk.trans he.symm)
      simp only [hk, if_true, mem_cons, Prod.mk.injEq]
      constructor
      · rintro (⟨j, hj, hjk⟩ | ⟨-, hm⟩)
        · exact absurd hjk (hothers _ hj)
        · exact .inl ⟨i, .inl ⟨rfl, (Option.some.inj hm).symm⟩, hk⟩
      · rintro (⟨j, ⟨rfl, rfl⟩ | hj, hjk⟩ | ⟨hno, -⟩)
        · exact .inr ⟨hothers, rfl⟩
        · exact absurd hjk (hothers _ hj)
        · exact absurd hk (hno (i, m) (.inl rfl))
    · simp only [hk, if_false, mem_cons, Prod.mk.injEq]
      grind

/-- The body of a method with its instructions. -/
def ofInsns (m : MethodCode) (h : Hierarchy) (ret : String) (insns : List Insn) : Body :=
  ⟨m, h, ret, insns.toArray, indexOf m.code.length insns.toArray⟩

variable {m : MethodCode} {h : Hierarchy} {ret : String} {insns : List Insn}

lemma indexed_ofInsns (hd : Insn.Decodes 0 m.code insns) : (ofInsns m h ret insns).Indexed := by
  have hne : insns.zipIdx.Pairwise fun x y => x.1.offset ≠ y.1.offset := by
    have hlt := hd.pairwise_offset_lt
    rw [← zipIdx_map_fst 0 insns, pairwise_map] at hlt
    exact hlt.imp Nat.ne_of_lt
  have hsize (x : Insn × Nat) (hx : x ∈ insns.zipIdx) :
      x.1.offset < (Array.replicate m.code.length (none : Option Nat)).size := by
    have hmem : x.1 ∈ insns := by
      obtain ⟨i, n⟩ := x
      exact mem_of_getElem? (mk_mem_zipIdx_iff_getElem?.1 hx)
    have hpos := hd.len_pos_of_mem hmem
    have hend := (hd.decode_of_mem hmem).2.1
    simp only [Insn.next] at hend
    simp
    omega
  intro t n
  cases t with
  | negSucc k =>
    simp only [number?, reduceCtorEq, false_iff, not_exists, not_and]
    intro i _ he
    omega
  | ofNat k =>
    have hfold := join_foldl_index hne hsize k n
    have hindex : ((ofInsns m h ret insns).index[k]?).join = some n ↔
        ∃ i, insns[n]? = some i ∧ i.offset = k := by
      simp only [ofInsns, indexOf, ← Array.foldl_toList, Array.toList_zipIdx]
      have hnone : ((Array.replicate m.code.length (none : Option Nat))[k]?).join = none := by
        rw [Array.getElem?_replicate]
        split_ifs <;> rfl
      rw [hfold, hnone]
      simp [mk_mem_zipIdx_iff_getElem?]
    rw [number?, hindex]
    simp [ofInsns]

def start (b : Body) (locals : List VType) : Progress where
  frames := (Array.replicate b.insns.size none).setIfInBounds 0 (some ⟨locals, []⟩)
  queued := (Array.replicate b.insns.size false).setIfInBounds 0 true
  work := [0]
  targets := Array.replicate b.insns.size false
  maxStack := 0
  maxLocals := locals.length

end Body

variable {m : MethodCode} {h : Hierarchy} {a : Analysis} {v : VType} {vs locals : List VType}
  {params : List String}

lemma MethodCode.analyzeWithin_eq_ok {fuel : Nat} (ha : m.analyzeWithin fuel h = .ok a) :
    ∃ insns params ret locals p, m.code ≠ [] ∧ Insn.Decodes 0 m.code insns ∧
    Descriptor.parse m.desc = .ok (params, ret) ∧ m.initialLocals params = .ok locals ∧
    (Body.ofInsns m h ret insns).settle fuel ((Body.ofInsns m h ret insns).start locals) =
    .ok ((), p) ∧ a = (Body.ofInsns m h ret insns).analysis locals p := by
  unfold analyzeWithin at ha
  split at ha
  · simp [Except.bind_eq_ok_iff] at ha
  · next hne =>
    obtain ⟨insns, hinsns, ha⟩ := Except.bind_eq_ok_iff.1 ha
    obtain ⟨⟨params, ret⟩, hparse, ha⟩ := Except.bind_eq_ok_iff.1 ha
    obtain ⟨locals, hlocals, ha⟩ := Except.bind_eq_ok_iff.1 ha
    obtain ⟨⟨_, p⟩, hsettle, ha⟩ := Except.bind_eq_ok_iff.1 ha
    rw [Except.mapError_eq_ok_iff] at hinsns hparse hlocals
    exact ⟨insns, params, ret, locals, p, by simpa using hne, Insn.decodeAll_eq_ok_iff.1 hinsns,
      hparse, hlocals, hsettle, (Except.pure_eq_ok_iff.1 ha).symm⟩

/-! ### First locals -/

lemma Paired.cons (hv : v.isWide = false) (hp : Paired vs) : Paired (v :: vs) := by
  intro n hn
  cases n with
  | zero => simp [hv] at hn
  | succ n => simpa using hp n (by simpa using hn)

lemma Paired.cons_top (hp : Paired vs) : Paired (v :: .top :: vs) := by
  intro n hn
  rcases n with _ | _ | n
  · simp
  · simp at hn
  · simpa using hp n (by simpa using hn)

lemma paramLocals_spec {blocks : List (List VType)}
    (hb : (params.mapM fun p => do
      let v ← VType.ofDescriptor p
      return if v.isWide then [v, .top] else [v]) = .ok blocks) :
    Paired blocks.flatten ∧
      ∀ v ∈ blocks.flatten, v = .top ∨ ∃ p ∈ params, VType.ofDescriptor p = .ok v := by
  induction params generalizing blocks with
  | nil =>
    obtain rfl := Except.pure_eq_ok_iff.1 hb
    exact ⟨fun n hn => by simp at hn, by simp⟩
  | cons p params ih =>
    rw [mapM_cons] at hb
    obtain ⟨block, hblock, hb⟩ := Except.bind_eq_ok_iff.1 hb
    obtain ⟨rest, hrest, hb⟩ := Except.bind_eq_ok_iff.1 hb
    obtain rfl := Except.pure_eq_ok_iff.1 hb
    obtain ⟨v, hv, hblock⟩ := Except.bind_eq_ok_iff.1 hblock
    obtain rfl := Except.pure_eq_ok_iff.1 hblock
    obtain ⟨hpair, hfrom⟩ := ih hrest
    have hall : ∀ w ∈ v :: rest.flatten, w = .top ∨
        ∃ q ∈ p :: params, VType.ofDescriptor q = .ok w :=
      forall_mem_cons.2 ⟨.inr ⟨p, mem_cons_self, hv⟩, fun w hw =>
        (hfrom w hw).imp_right fun ⟨q, hq, h⟩ => ⟨q, mem_cons_of_mem p hq, h⟩⟩
    split_ifs with hw
    · exact ⟨hpair.cons_top, by simpa using hall⟩
    · exact ⟨.cons (by simpa using hw) hpair, hall⟩

/-- A method starts with paired locals: its receiver and its parameters. -/
lemma MethodCode.initialLocals_spec (hl : m.initialLocals params = .ok locals) :
    Paired locals ∧ ∀ v ∈ locals, v = .uninitThis ∨ v = .ref m.owner ∨ v = .top ∨
      ∃ p ∈ params, VType.ofDescriptor p = .ok v := by
  unfold initialLocals at hl
  obtain ⟨blocks, hblocks, hl⟩ := Except.bind_eq_ok_iff.1 hl
  obtain rfl := Except.pure_eq_ok_iff.1 hl
  obtain ⟨hpair, hfrom⟩ := paramLocals_spec hblocks
  have hall (v) (hv : v ∈ blocks.flatten) : v = .uninitThis ∨ v = .ref m.owner ∨ _ :=
    .inr (.inr (hfrom v hv))
  split_ifs
  · exact ⟨hpair, hall⟩
  · exact ⟨.cons rfl hpair, forall_mem_cons.2 ⟨.inl rfl, hall⟩⟩
  · exact ⟨.cons rfl hpair, forall_mem_cons.2 ⟨.inr (.inl rfl), hall⟩⟩

/-- No object is made before a method starts. -/
lemma MethodCode.fitting_initialLocals
    (hl : m.initialLocals params = .ok locals) (h : Hierarchy) (offsets : Nat → Prop) :
    Insn.Fitting h offsets ⟨locals, []⟩ ⟨locals, []⟩ := by
  obtain ⟨hpair, hfrom⟩ := initialLocals_spec hl
  refine ⟨⟨.nil, fun n => ⟨.refl _, fun offset he => ?_⟩⟩, hpair⟩
  unfold slotType at he
  cases hn : locals[n]? with
  | none => simp [hn] at he
  | some v =>
    obtain rfl : v = .uninit offset := by simpa [hn] using he
    obtain ⟨p, -, hp⟩ := by simpa using hfrom _ (mem_of_getElem? hn)
    exact absurd (.inr ⟨offset, rfl⟩) (VType.not_unbuilt_of_ofDescriptor hp)

namespace Body

open Progress Insn

variable {b : Body} {locals : List VType}

lemma frameAt_start (hpos : 0 < b.insns.size) (n : Nat) :
    (b.start locals).frameAt n = if n = 0 then some ⟨locals, []⟩ else none := by
  simp only [frameAt, start, Array.getElem?_setIfInBounds, Array.getElem?_replicate]
  grind

/-- Only the first instruction has a frame to begin with, and it is queued. -/
lemma listed_start (locals : List VType) (hpos : 0 < b.insns.size) :
    b.Listed (b.start locals) ∧ ∀ (O : Frame.Order) (n : Nat), b.Done O (b.start locals) n := by
  have hqueued (n : Nat) : (b.start locals).isQueued n = decide (n = 0) := by
    simp only [isQueued, start, Array.getD_eq_getD_getElem?]
    grind
  refine ⟨⟨⟨by simp [start], by simp [start], by simp [start]⟩, fun n hq => ?_,
    ⟨_, by rw [frameAt_start hpos, if_pos rfl]⟩⟩, fun O n f hf hq => ?_⟩
  · rw [hqueued] at hq
    simpa [start] using hq
  · rw [frameAt_start hpos] at hf
    split_ifs at hf with hn
    simp [hqueued, hn] at hq

lemma sound_start (hpos : 0 < b.insns.size)
    (hfit : b.Within (b.start locals) ⟨locals, []⟩) : b.Sound ⟨locals, []⟩ (b.start locals) := by
  have hlist := (listed_start locals hpos).1
  refine ⟨hlist.sized, hlist.work, fun {n f} hf => ?_,
    ⟨⟨locals, []⟩, by simp [frameAt_start hpos], b.order.refl _⟩,
    fun _ => by simp [frameAt_start hpos], fun _ hf => by simp [frameAt_start hpos] at hf⟩
  rw [frameAt_start hpos] at hf
  split_ifs at hf
  exact Option.some.inj hf ▸ hfit

/-- The instructions of a body are those of its method. -/
structure Placed (b : Body) : Prop where
  indexed : b.Indexed
  decodes : Insn.Decodes 0 b.method.code b.insns.toList

section

variable {b : Body} {locals : List VType} {p : Progress} {n : Nat} {i : Insn}

/-- The offsets of instructions tell them apart. -/
lemma Placed.eq_of_offset (hb : b.Placed) {m : Nat} {j : Insn} (hi : b.insns[n]? = some i)
    (hj : b.insns[m]? = some j) (he : i.offset = j.offset) : n = m :=
  Option.some.inj (((hb.indexed _ _).2 ⟨i, hi, rfl⟩).symm.trans
    ((hb.indexed _ _).2 ⟨j, hj, by rw [he]⟩))

lemma Placed.eq_of_overlap (hb : b.Placed) {m offset : Nat} {j : Insn}
    (hi : b.insns[n]? = some i) (hj : b.insns[m]? = some j) (hio : i.offset ≤ offset)
    (hoi : offset < i.next) (hjo : j.offset ≤ offset) (hoj : offset < j.next) : n = m := by
  have hpair := pairwise_iff_getElem.1 hb.decodes.pairwise_next_le
  have hget {k : Nat} {x : Insn} (hx : b.insns[k]? = some x) :
      ∃ hk : k < b.insns.toList.length, b.insns.toList[k] = x := by
    rw [← Array.getElem?_toList] at hx
    exact List.getElem?_eq_some_iff.1 hx
  obtain ⟨hn, rfl⟩ := hget hi
  obtain ⟨hm, rfl⟩ := hget hj
  rcases Nat.lt_trichotomy n m with hlt | he | hlt
  · have := hpair n m hn hm hlt
    omega
  · exact he
  · have := hpair m n hm hn hlt
    omega

/-- The instructions of the rewritten code. -/
lemma Placed.decodes_rewritten (hb : b.Placed) :
    Insn.Decodes 0 (b.analysis locals p).code (rewritten (b.traced p)) :=
  decodes_overwrite (map_traced ▸ hb.decodes)

/-- What was reached has the handlers that it had. -/
lemma Placed.covering_analysis (hb : b.Placed) (hlen : b.method.code.length ≤ 65536) {f : Frame}
    (hi : b.insns[n]? = some i) (hf : p.frameAt n = some f) :
    covering (b.analysis locals p).handlers i.offset = covering b.method.handlers i.offset := by
  have hmem : (n, i, some f) ∈ b.traced p :=
    mem_of_getElem? (i := n) (by simp [getElem?_traced, hi, hf])
  have hd : Insn.Decodes 0 b.method.code ((b.traced p).map (·.2.1)) := map_traced ▸ hb.decodes
  show covering (b.method.handlers.flatMap fun h => liveRuns h none (b.traced p)) _ = _
  induction b.method.handlers with
  | nil => rfl
  | cons e es ih =>
    rw [flatMap_cons, covering_append, covering_liveRuns hd (by omega) (by simp) hmem, ih,
      covering_cons]
    cases e.covers i.offset <;> rfl

/-- A range that covers an instruction after the analysis covered it before. -/
lemma Placed.handler (hb : b.Placed) (hlen : b.method.code.length ≤ 65535)
    {e : ExceptionEntry} (he : e ∈ (b.analysis locals p).handlers) :
    ∃ e' ∈ b.method.handlers, e.handler = e'.handler ∧ e.catchType = e'.catchType ∧
      (∀ {n i}, b.insns[n]? = some i → ∀ offset, i.offset ≤ offset → offset < i.next →
        e.covers offset → e'.covers i.offset ∧ ∃ f, p.frameAt n = some f) ∧
      ∃ n i f, b.insns[n]? = some i ∧ p.frameAt n = some f ∧ e'.covers i.offset := by
  obtain ⟨e', he', hmem⟩ := mem_flatMap.1 he
  have hd : Insn.Decodes 0 b.method.code ((b.traced p).map (·.2.1)) := map_traced ▸ hb.decodes
  obtain ⟨⟨hh, hc⟩, hcov, hex⟩ := mem_liveRuns hd (by omega) (by simp) hmem
  refine ⟨e', he', hh, hc, fun {n i} hi offset hio hoi hoff => ?_, ?_⟩
  · have hend : i.next ≤ 0 + b.method.code.length :=
      (hb.decodes.decode_of_mem (mem_of_getElem? (by simpa using hi))).2.1
    rcases hcov offset (by omega) hoff with ⟨_, ⟨⟩, -⟩ | ⟨m, j, f, hmem, hjo, hoj, hjc⟩
    obtain ⟨hj, hf⟩ := mem_traced hmem
    obtain rfl := hb.eq_of_overlap hi hj hio hoi hjo hoj
    obtain rfl : i = j := Option.some.inj (hi.symm.trans hj)
    exact ⟨hjc, f, hf⟩
  · obtain ⟨offset, m, j, f, hmem, -, -, hjc⟩ := hex rfl
    obtain ⟨hj, hf⟩ := mem_traced hmem
    exact ⟨m, j, f, hj, hf, hjc⟩

end

/-- The end of an analysis: every instruction that was reached has sent on what it sends. -/
structure Ended (b : Body) (p : Progress) : Prop extends Placed b where
  listed : b.Listed p
  settled : ∀ {n f}, p.frameAt n = some f →
    ∃ i after, b.insns[n]? = some i ∧ b.Settled .anyhow p n i f after

/-- The end of an analysis in a grounded hierarchy, with the locals that the method starts with. -/
structure Final (b : Body) (locals : List VType) (p : Progress) : Prop extends Placed b where
  paired : Paired locals
  sound : b.Sound ⟨locals, []⟩ p
  settled : ∀ {n f}, p.frameAt n = some f →
    ∃ i after, b.insns[n]? = some i ∧ b.Settled b.order p n i f after

/-- Nothing is queued once nothing is left to look at. -/
lemma settled_of_done {O : Frame.Order} {p : Progress} {n : Nat} {f : Frame}
    (hwork : ∀ n, p.isQueued n → n ∈ p.work) (hnil : p.work = []) (hd : b.Done O p n)
    (hf : p.frameAt n = some f) : ∃ i after, b.insns[n]? = some i ∧ b.Settled O p n i f after := by
  refine hd f hf ?_
  by_contra hq
  have := hwork n (by simpa using hq)
  simp [hnil] at this

end Body

/-- An analysis that succeeds has come to an end. -/
lemma MethodCode.analyze_ended (ha : m.analyze h = .ok a) :
    ∃ insns ret locals p, (Body.ofInsns m h ret insns).Ended p ∧
    a = (Body.ofInsns m h ret insns).analysis locals p := by
  obtain ⟨insns, params, ret, locals, p, hne, hd, -, -, hsettle, rfl⟩ := analyzeWithin_eq_ok ha
  have hb : (Body.ofInsns m h ret insns).Indexed := Body.indexed_ofInsns hd
  have hpos : 0 < (Body.ofInsns m h ret insns).insns.size := length_pos_iff.2 (hd.ne_nil hne)
  obtain ⟨hlist, hdone⟩ := Body.listed_start _ hpos
  obtain ⟨hlist, hdone, hwork⟩ := Body.settle_done hb hlist (hdone _) hsettle
  exact ⟨insns, ret, locals, p, ⟨⟨hb, hd⟩, hlist, Body.settled_of_done hlist.work hwork (hdone _)⟩,
    rfl⟩

lemma MethodCode.analyze_final (hh : h.Grounded) (ha : m.analyze h = .ok a) :
    ∃ insns params ret locals p, Descriptor.parse m.desc = .ok (params, ret) ∧
    m.initialLocals params = .ok locals ∧ (Body.ofInsns m h ret insns).Final locals p ∧
    a = (Body.ofInsns m h ret insns).analysis locals p := by
  obtain ⟨insns, params, ret, locals, p, hne, hd, hparse, hlocals, hsettle, rfl⟩ :=
    analyzeWithin_eq_ok ha
  have hb : (Body.ofInsns m h ret insns).Indexed := Body.indexed_ofInsns hd
  have hpos : 0 < (Body.ofInsns m h ret insns).insns.size := length_pos_iff.2 (hd.ne_nil hne)
  obtain ⟨hs, hdone, hwork⟩ :=
    Body.settle_sound hh hb (Body.sound_start hpos (fitting_initialLocals hlocals _ _))
    ((Body.listed_start _ hpos).2 _) hsettle
  exact ⟨insns, params, ret, locals, p, hparse, hlocals,
    ⟨⟨hb, hd⟩, (initialLocals_spec hlocals).1, hs, Body.settled_of_done hs.work hwork (hdone _)⟩,
    rfl⟩

end Classwright
