import Classwright.Proofs.Frame.Settled

/-!
Analyses in step.

The code that an analysis leaves has the instructions that were reached where they were, so a second
analysis can go through it in step with the first: `Body.Twin` tells which instructions are the
same, `Body.Mirrors` when two states say the same of them, and `Body.Follows` that a step of the
second does what a step of the first has done. All that the first comes to is still there, which is
known at its end only: a step is followed if what it reaches has a twin. By induction on the number
of visits, `Body.settle_follows`.
-/

namespace Classwright

open Classwright.StateT (bind_eq_ok_iff pure_eq_ok_iff)

/-! ### Instructions in other code -/

lemma StateT.bind_congr_ok {σ ε α β : Type} {x : StateT σ (Except ε) α}
    {k k' : α → StateT σ (Except ε) β} {s : σ} (h : ∀ a t, x s = .ok (a, t) → k a t = k' a t) :
    (x >>= k) s = (x >>= k') s := by
  change (x s >>= fun r => k r.1 r.2) = (x s >>= fun r => k' r.1 r.2)
  cases hx : x s with
  | error e => rfl
  | ok r => exact h r.1 r.2 hx

namespace Insn

open Effect

variable {c : CodeContext} {code : Bytes} {handlers : List ExceptionEntry} {at? : Nat → Option Insn}
  {f g : Frame} {v : VType}

lemma resolved_frame {α : Type} {r : Except PoolError α} {a : α} (h : resolved r f = .ok (a, g)) :
    f = g := by
  cases r with
  | ok b => exact (pure_eq_ok_iff.1 h).2
  | error e => exact absurd h StateT.throw_ne_ok

lemma sound_frame {α : Type} {r : Except Misuse α} {a : α} (h : sound r f = .ok (a, g)) :
    f = g := by
  cases r with
  | ok b => exact (pure_eq_ok_iff.1 h).2
  | error e => exact absurd h StateT.throw_ne_ok

lemma popAs_stack {want : VType} (h : popAs want f = .ok (v, g)) : f.stack = v :: g.stack := by
  obtain ⟨w, f', hpop, h⟩ := bind_eq_ok_iff.1 h
  obtain ⟨hs, -⟩ := pop_eq_ok_iff.1 hpop
  split_ifs at h
  · obtain ⟨rfl, rfl⟩ := pure_eq_ok_iff.1 h
    exact hs
  · exact absurd h StateT.throw_ne_ok
  · exact absurd h StateT.throw_ne_ok

lemma constructEffect_withCode {recv : VType}
    (hat : ∀ offset, recv = .uninit offset → at? offset = c.at? offset) (op : Opcode)
    (owner : String) : constructEffect (withCode c code handlers at?) op recv owner =
    constructEffect c op recv owner := by
  unfold constructEffect
  cases recv with
  | uninit offset => simp only [withCode, hat offset rfl]
  | _ => rfl

/-- A call looks at code only where its receiver was made. -/
lemma invokeEffect_withCode (hat : ∀ offset, .uninit offset ∈ f.stack → at? offset = c.at? offset)
    (i : Insn) (isStatic : Bool) :
    invokeEffect (withCode c code handlers at?) i isStatic f = invokeEffect c i isStatic f := by
  unfold invokeEffect
  refine StateT.bind_congr_ok fun m g hm => ?_
  obtain rfl := resolved_frame hm
  cases Descriptor.parse m.desc with
  | error e => rfl
  | ok sig =>
    obtain ⟨params, ret⟩ := sig
    refine StateT.bind_congr_ok fun _ t hloop => ?_
    have hsuffix : t.stack <:+ f.stack := by
      refine (StateT.forIn_spec (I := fun _ => True) (R := fun s t : Frame => t.stack <:+ s.stack)
        (G := fun _ _ => True) (fun s => List.suffix_refl _) (fun hst htu => htu.trans hst)
        (fun _ _ => trivial) (fun p _ s r t _ hbody => ?_) trivial hloop).1
      obtain ⟨_, s', hs, hbody⟩ := bind_eq_ok_iff.1 hbody
      obtain ⟨v, t', hpop, hbody⟩ := bind_eq_ok_iff.1 hbody
      obtain ⟨rfl, rfl⟩ := pure_eq_ok_iff.1 hbody
      obtain rfl := sound_frame hs
      exact ⟨rfl, trivial, ⟨[v], (popAs_stack hpop).symm⟩, trivial⟩
    cases isStatic with
    | true => rfl
    | false =>
      refine StateT.bind_congr_ok fun recv t' hpop => ?_
      rw [constructEffect_withCode fun offset ho => hat offset (hsuffix.subset ?_)]
      simp [popAs_stack hpop, ho]

/-- An instruction does in other code what it did, if the objects on the stack were made there. -/
lemma transfer_withCode (hat : ∀ offset, .uninit offset ∈ f.stack → at? offset = c.at? offset)
    (i : Insn) : i.transfer (withCode c code handlers at?) f = i.transfer c f := by
  have heffect : i.effect (withCode c code handlers at?) f = i.effect c f := by
    unfold effect
    cases i.op.action? with
    | none => rfl
    | some a => cases a <;> first | rfl | exact invokeEffect_withCode hat i _
  unfold transfer
  exact congrArg (fun r => r >>= fun r => pure r.2) heffect

end Insn

namespace Body

open Progress Insn

variable {b b' : Body} {live : Nat → Prop} {p p' q : Progress} {n m k l : Nat} {i j : Insn}
  {f : Frame} {t : Int} {u : Unit}

/-! ### The same instructions -/

/-- One instruction stands at both places. -/
def Twin (b b' : Body) (n k : Nat) : Prop := ∃ i, b.insns[n]? = some i ∧ b'.insns[k]? = some i

/-- A body has the instructions of another that are `live`, where they were and with their
handlers. -/
structure Replica (b b' : Body) (live : Nat → Prop) : Prop where
  placed : b.Placed
  placed' : b'.Placed
  hierarchy : b'.hierarchy = b.hierarchy
  pool : b'.method.pool = b.method.pool
  context : b'.context = withCode b.context b'.method.code b'.method.handlers b'.context.at?
  insns : ∀ {n : Nat} {i}, live n → b.insns[n]? = some i → ∃ k : Nat, b'.insns[k]? = some i
  handlers : ∀ {n : Nat} {i}, live n → b.insns[n]? = some i →
    covering b'.method.handlers i.offset = covering b.method.handlers i.offset

/-- The instruction behind another is the one that stands at its end. -/
lemma Placed.eq_succ_iff (hb : b.Placed) (hi : b.insns[n]? = some i) (hj : b.insns[m]? = some j) :
    m = n + 1 ↔ j.offset = i.next := by
  have hsucc {x : Insn} (hx : b.insns[n + 1]? = some x) : x.offset = i.next :=
    hb.decodes.offset_succ (n := n) (by simpa using hi) (by simpa using hx)
  refine ⟨fun he => hsucc (he ▸ hj), fun he => ?_⟩
  have hpos := hb.decodes.len_pos_of_mem (List.mem_of_getElem? (i := n) (by simpa using hi))
  obtain ⟨hn, rfl⟩ := Array.getElem?_eq_some_iff.1 hi
  obtain ⟨hm, rfl⟩ := Array.getElem?_eq_some_iff.1 hj
  -- The other stands behind, so there is one at the next number.
  have hlt : n < m := by
    by_contra hle
    rcases Nat.lt_or_eq_of_le (Nat.le_of_not_lt hle) with hlt | rfl
    · have :=
        List.pairwise_iff_getElem.1 hb.decodes.pairwise_offset_lt m n (by simpa) (by simpa) hlt
      simp only [Array.getElem_toList, next] at this he
      omega
    · simp only [next] at he
      omega
  have hx : b.insns[n + 1]? = some b.insns[n + 1] := Array.getElem?_eq_getElem (by omega)
  exact (hb.eq_of_offset hx hj ((hsucc hx).trans he.symm)).symm

lemma Placed.number_zero (hb : b.Placed) (hpos : 0 < b.insns.size) : b.number? 0 = some 0 := by
  refine (hb.indexed 0 0).2 ⟨b.insns[0], Array.getElem?_eq_getElem hpos, ?_⟩
  have hd := hb.decodes
  cases hl : b.insns.toList with
  | nil => simp [← Array.length_toList, hl] at hpos
  | cons i rest =>
    rw [hl] at hd
    obtain rfl : b.insns[0] = i := by simp [← Array.getElem_toList, hl]
    exact_mod_cast hd.cons_inv.1

lemma Twin.lt (ht : b.Twin b' n k) : n < b.insns.size ∧ k < b'.insns.size := by
  obtain ⟨i, hn, hk⟩ := ht
  exact ⟨(Array.getElem?_eq_some_iff.1 hn).1, (Array.getElem?_eq_some_iff.1 hk).1⟩

namespace Replica

variable (hR : Replica b b' live)

include hR

lemma eq_iff (ht : b.Twin b' n k) (ht' : b.Twin b' m l) : m = n ↔ l = k := by
  obtain ⟨i, hn, hk⟩ := ht
  obtain ⟨j, hm, hl⟩ := ht'
  constructor
  · rintro rfl
    obtain rfl : i = j := Option.some.inj (hn.symm.trans hm)
    exact hR.placed'.eq_of_offset hl hk rfl
  · rintro rfl
    obtain rfl : i = j := Option.some.inj (hk.symm.trans hl)
    exact hR.placed.eq_of_offset hm hn rfl

lemma eq_succ_iff (ht : b.Twin b' n k) (ht' : b.Twin b' m l) : m = n + 1 ↔ l = k + 1 := by
  obtain ⟨i, hn, hk⟩ := ht
  obtain ⟨j, hm, hl⟩ := ht'
  rw [hR.placed.eq_succ_iff hn hm, hR.placed'.eq_succ_iff hk hl]

/-- What is live has the same offset in both. -/
lemma number (hlive : live n) (hn : b.number? t = some n) :
    ∃ k, b'.number? t = some k ∧ b.Twin b' n k := by
  obtain ⟨i, hi, rfl⟩ := (hR.placed.indexed t n).1 hn
  obtain ⟨k, hk⟩ := hR.insns hlive hi
  exact ⟨k, (hR.placed'.indexed _ k).2 ⟨i, hk, rfl⟩, i, hi, hk⟩

end Replica

/-- What two states say of the same instructions is the same. -/
structure Mirrors (b b' : Body) (p p' : Progress) : Prop where
  sized : p'.Sized b'.insns.size
  frames : ∀ {n k}, b.Twin b' n k → p'.frameAt k = p.frameAt n
  targets : ∀ {n k}, b.Twin b' n k → p'.isTarget k = p.isTarget n
  queued : ∀ {n k}, b.Twin b' n k → p'.isQueued k = p.isQueued n
  others : ∀ {k f}, p'.frameAt k = some f → ∃ n, b.Twin b' n k
  work : List.Forall₂ (b.Twin b') p.work p'.work
  maxStack : p'.maxStack = p.maxStack
  maxLocals : p'.maxLocals = p.maxLocals

namespace Mirrors

variable (hR : Replica b b' live) (hs : p.Sized b.insns.size) (hm : b.Mirrors b' p p')

include hR hs hm

lemma setFrame (ht : b.Twin b' n k) (f : Frame) :
    b.Mirrors b' (p.setFrame n f) (p'.setFrame k f) := by
  obtain ⟨hn, hk⟩ := ht.lt
  have hwork (p : Progress) (n : Nat) :
      (p.setFrame n f).work = if p.isQueued n then p.work else n :: p.work := by
    unfold Progress.setFrame enqueue isQueued
    split <;> rfl
  have hmax (p : Progress) (n : Nat) :
      (p.setFrame n f).maxStack = p.maxStack ∧ (p.setFrame n f).maxLocals = p.maxLocals := by
    unfold Progress.setFrame enqueue
    split <;> exact ⟨rfl, rfl⟩
  refine ⟨hm.sized.setFrame, fun ht' => ?_, fun ht' => ?_, fun ht' => ?_, fun {l g} hl => ?_,
    ?_, ?_, ?_⟩
  · simp only [frameAt_setFrame hs hn, frameAt_setFrame hm.sized hk, hR.eq_iff ht ht',
      hm.frames ht']
  · simp only [isTarget_setFrame, hm.targets ht']
  · simp only [isQueued_setFrame hs hn, isQueued_setFrame hm.sized hk, hR.eq_iff ht ht',
      hm.queued ht']
  · rw [frameAt_setFrame hm.sized hk] at hl
    split_ifs at hl with he
    · exact ⟨n, he ▸ ht⟩
    · exact hm.others hl
  · rw [hwork, hwork, hm.queued ht]
    split_ifs
    · exact hm.work
    · exact .cons ht hm.work
  · rw [(hmax _ _).1, (hmax _ _).1, hm.maxStack]
  · rw [(hmax _ _).2, (hmax _ _).2, hm.maxLocals]

omit hR hs in
lemma noted {after : Frame} : b.Mirrors b' (p.noted f after i) (p'.noted f after i) where
  __ := hm
  sized := ⟨hm.sized.frames, hm.sized.queued, hm.sized.targets⟩
  maxStack := by simp only [Progress.noted, note, hm.maxStack]
  maxLocals := by simp only [Progress.noted, hm.maxLocals]

omit hR in
/-- Marks may also be put behind all instructions, where they are lost. -/
lemma setTarget (hnk : ∀ {m l}, b.Twin b' m l → (m = n ↔ l = k)) :
    b.Mirrors b' (p.setTarget n) (p'.setTarget k) where
  __ := hm
  sized := hm.sized.setTarget
  targets ht := by
    have hlt := ht.lt
    rw [isTarget_setTarget hs, isTarget_setTarget hm.sized, hm.targets ht]
    have := hnk ht
    grind

lemma dequeue {rest rest' : List Nat} (ht : b.Twin b' n k)
    (hrest : List.Forall₂ (b.Twin b') rest rest') :
    b.Mirrors b' (dequeue p n rest) (dequeue p' k rest') where
  __ := hm
  sized := sized_dequeue hm.sized
  queued ht' := by
    simp only [isQueued_dequeue hs, isQueued_dequeue hm.sized, hm.queued ht',
      hR.eq_iff ht ht', ht.lt]
  work := hrest

end Mirrors

/-- Flows to a handler, with what it catches. -/
def flowToHandler (b : Body) (i : Insn) (before after : List VType) (x : UInt16 × UInt16) :
    Analyze Unit := do
  let v ← b.caught i x.2
  b.flowTo i x.1.toNat ⟨before, [v]⟩
  if i.isStore then b.flow i x.1.toNat ⟨after, [v]⟩

/-- A loop over rows that passes over those that do not cover an instruction. -/
lemma forIn_covering (step : UInt16 × UInt16 → Analyze Unit) {offset : Nat}
    {body : ExceptionEntry → PUnit → Analyze (ForInStep PUnit)}
    (hbody : ∀ e u, body e u = if e.covers offset then (do
      step (e.handler, e.catchType)
      Pure.pure (.yield ⟨⟩)) else Pure.pure (.yield ⟨⟩)) (es : List ExceptionEntry) :
    forIn es PUnit.unit body = forIn (covering es offset) PUnit.unit (fun x _ => do
      step x
      Pure.pure (.yield ⟨⟩)) := by
  induction es with
  | nil => rfl
  | cons e es ih =>
    rw [List.forIn_cons, covering_cons, hbody]
    split_ifs
    · simp only [List.forIn_cons, bind_assoc, pure_bind, ih]
    · simp only [pure_bind, ih]

/-- Of the rows that cover an instruction, only handlers and classes are looked at. -/
lemma flowToHandlers_eq (i : Insn) (before after : List VType) :
    b.flowToHandlers i before after = (do
      for x in covering b.method.handlers i.offset do
        b.flowToHandler i before after x) := by
  unfold flowToHandlers
  rw [forIn_covering (b.flowToHandler i before after) fun e _ => ?_]
  unfold ExceptionEntry.covers flowToHandler
  split_ifs <;> simp only [bind_assoc, pure_bind]

/-! ### Steps in step -/

/-- The objects of a frame were made by instructions that are live. -/
def Made (b : Body) (live : Nat → Prop) (f : Frame) : Prop :=
  Fitting {} (fun offset => ∃ n, b.number? offset = some n ∧ live n) f f

/-- All that was reached is live. -/
def AllLive (live : Nat → Prop) (q : Progress) : Prop := ∀ ⦃n f⦄, q.frameAt n = some f → live n

/-- A step can be done again in another body if what it reaches is live. -/
def Follows (b b' : Body) (live : Nat → Prop) {α : Type} (x x' : Analyze α) : Prop :=
  ∀ ⦃p r q⦄, p.Sized b.insns.size → x p = .ok (r, q) → Growth b .anyhow (b.Made live) p q ∧
    ∀ ⦃p'⦄, b.Mirrors b' p p' → AllLive live q → ∃ q', x' p' = .ok (r, q') ∧ b.Mirrors b' q q'

section Follows

variable {α β : Type}

lemma AllLive.of_growth {W : Frame → Prop} (hq : AllLive live q) (hg : Growth b .anyhow W p q) :
    AllLive live p := by
  intro n f hf
  obtain ⟨g, hg, -⟩ := hg.frames hf
  exact hq hg

lemma Follows.pure (a : α) : Follows b b' live (Pure.pure a) (Pure.pure a) := by
  intro p r q _ hrun
  obtain ⟨rfl, rfl⟩ := pure_eq_ok_iff.1 hrun
  exact ⟨.refl p, fun _ hm _ => ⟨_, rfl, hm⟩⟩

lemma Follows.bind {x x' : Analyze α} {y y' : α → Analyze β} (hx : Follows b b' live x x')
    (hy : ∀ ⦃a p q⦄, x p = .ok (a, q) → Follows b b' live (y a) (y' a)) :
    Follows b b' live (x >>= y) (x' >>= y') := by
  intro p r q hs hrun
  obtain ⟨a, p₁, hrunx, hruny⟩ := bind_eq_ok_iff.1 hrun
  obtain ⟨hgx, hx⟩ := hx hs hrunx
  obtain ⟨hgy, hy⟩ := hy hrunx (hgx.sized hs) hruny
  refine ⟨hgx.trans hgy, fun _ hm hlive => ?_⟩
  obtain ⟨p₁', hrunx', hm⟩ := hx hm (hlive.of_growth hgy)
  obtain ⟨q', hruny', hm⟩ := hy hm hlive
  exact ⟨q', bind_eq_ok_iff.2 ⟨a, p₁', hrunx', hruny'⟩, hm⟩

lemma Follows.forIn {xs : List α} {body body' : α → PUnit → Analyze (ForInStep PUnit)}
    (hbody : ∀ a, Follows b b' live (body a ⟨⟩) (body' a ⟨⟩)) :
    Follows b b' live (ForIn.forIn xs PUnit.unit body) (ForIn.forIn xs PUnit.unit body') := by
  induction xs with
  | nil => exact .pure _
  | cons a xs ih =>
    rw [List.forIn_cons, List.forIn_cons]
    refine (hbody a).bind fun r _ _ _ => ?_
    cases r with
    | done _ => exact .pure _
    | yield _ => exact ih

variable (hR : Replica b b' live)

include hR

lemma Replica.setting : b.Setting .anyhow (b.Made live) :=
  ⟨hR.placed.indexed, fun _ => ⟨trivial, trivial⟩, fun hf hg hm => hf.merge hg hm⟩

lemma flow_follows (hf : b.Made live f) (i : Insn) (t : Int) :
    Follows b b' live (b.flow i t f) (b'.flow i t f) := by
  intro p r q hs hrun
  obtain ⟨n, g, hn, hfl⟩ := flow_flowed hR.setting hs hf hrun
  refine ⟨hfl.growth, fun p' hm hlive => ?_⟩
  obtain ⟨k, hk, ht⟩ := hR.number (hlive hfl.frame) hn
  rw [flow_eq hn] at hrun
  rw [flow_eq hk, hm.frames ht, hR.hierarchy]
  cases hold : p.frameAt n with
  | none =>
    obtain rfl : p.setFrame n f = q := by simpa [hold] using hrun
    exact ⟨_, rfl, hm.setFrame hR hs ht f⟩
  | some old =>
    cases hmerge : old.merge b.hierarchy f i.offset with
    | error e => simp [hold, hmerge] at hrun
    | ok new =>
      obtain rfl : (if new ≠ old then p.setFrame n new else p) = q := by
        simpa [hold, hmerge] using hrun
      refine ⟨if new ≠ old then p'.setFrame k new else p', by simp only [hmerge], ?_⟩
      split_ifs
      · exact hm.setFrame hR hs ht new
      · exact hm

lemma flowTo_follows (hf : b.Made live f) (i : Insn) (t : Int) :
    Follows b b' live (b.flowTo i t f) (b'.flowTo i t f) := by
  intro p r q hs hrun
  refine ⟨(flowTo_marks hR.setting hs hf hrun).1.1, fun p' hm hlive => ?_⟩
  obtain ⟨_, p₁, hflow, hrun⟩ := bind_eq_ok_iff.1 hrun
  obtain ⟨n, g, hn, hfl⟩ := flow_flowed hR.setting hs hf hflow
  rw [hn] at hrun
  obtain rfl : p₁.setTarget n = q := StateT.modify_eq_ok_iff.1 hrun
  obtain ⟨k, hk, ht⟩ := hR.number (hlive hfl.frame) hn
  obtain ⟨p₁', hflow', hm⟩ := (flow_follows hR hf i t hs hflow).2 hm hlive
  refine ⟨p₁'.setTarget k, bind_eq_ok_iff.2 ⟨_, p₁', hflow', ?_⟩,
    hm.setTarget (hfl.growth.sized hs) fun ht' => hR.eq_iff ht ht'⟩
  rw [hk]
  rfl

lemma flowToAll_follows (hf : b.Made live f) (i : Insn) (ts : List Int) :
    Follows b b' live (b.flowToAll i ts f) (b'.flowToAll i ts f) := by
  unfold flowToAll
  refine Follows.bind (.forIn fun t => ?_) fun _ _ _ _ => .pure _
  exact (flowTo_follows hR hf i t).bind fun _ _ _ _ => .pure _

lemma fallThrough_follows (hf : b.Made live f) (ht : b.Twin b' n k) (i : Insn) :
    Follows b b' live (b.fallThrough n i f) (b'.fallThrough k i f) := by
  intro p r q hs hrun
  unfold fallThrough at hrun ⊢
  cases hnext : b.insns[n + 1]? with
  | none => simp [hnext] at hrun
  | some next =>
    simp only [hnext] at hrun
    obtain ⟨hgrow, hrest⟩ := flow_follows hR hf i next.offset hs hrun
    refine ⟨hgrow, fun p' hm hlive => ?_⟩
    obtain ⟨m, g, hm', hfl⟩ := flow_flowed hR.setting hs hf hrun
    obtain rfl : n + 1 = m :=
      Option.some.inj (((hR.placed.indexed _ _).2 ⟨next, hnext, rfl⟩).symm.trans hm')
    -- The instruction behind is live now, and it stands behind the twin.
    obtain ⟨l, hl⟩ := hR.insns (hlive hfl.frame) hnext
    obtain rfl : l = k + 1 := (hR.eq_succ_iff ht ⟨next, hnext, hl⟩).1 rfl
    simp only [hl]
    exact hrest hm hlive

lemma markNext_follows (ht : b.Twin b' n k) : Follows b b' live (markNext n) (markNext k) := by
  intro p r q hs hrun
  refine ⟨(markNext_marks hs hrun).1.1, fun p' hm _ => ?_⟩
  obtain rfl : p.setTarget (n + 1) = q := StateT.modify_eq_ok_iff.1 hrun
  exact ⟨p'.setTarget (k + 1), rfl, hm.setTarget hs fun ht' => hR.eq_succ_iff ht ht'⟩

lemma caught_follows (i : Insn) (catchType : UInt16) :
    Follows b b' live (b.caught i catchType) (b'.caught i catchType) := by
  unfold caught
  rw [hR.pool]
  split_ifs
  · exact .pure _
  · cases b.method.pool.classAt catchType with
    | ok name => exact .pure _
    | error e => exact fun _ _ _ _ hrun => absurd hrun failAt_ne_ok

lemma flowToHandlers_follows (hlive : live n) (hi : b.insns[n]? = some i)
    {before after : List VType}
    (hW : ∀ c : String, b.Made live ⟨before, [.ref c]⟩ ∧ b.Made live ⟨after, [.ref c]⟩) :
    Follows b b' live (b.flowToHandlers i before after) (b'.flowToHandlers i before after) := by
  rw [flowToHandlers_eq, flowToHandlers_eq, hR.handlers hlive hi]
  refine Follows.bind (.forIn fun x => ?_) fun _ _ _ _ => .pure _
  refine Follows.bind ?_ fun _ _ _ _ => .pure _
  unfold flowToHandler
  refine (caught_follows hR i x.2).bind fun v p q hrun => ?_
  obtain ⟨-, hv⟩ := caught_eq_ok hrun
  obtain ⟨c, rfl⟩ := MethodCode.exists_ref_of_caught? hv
  refine (flowTo_follows hR (hW c).1 i _).bind fun _ _ _ _ => ?_
  split_ifs
  · exact flow_follows hR (hW c).2 i _
  · exact .pure _

lemma flowOn_follows (hf : b.Made live f) (ht : b.Twin b' n k) (i : Insn) :
    Follows b b' live (b.flowOn n i f) (b'.flowOn k i f) := by
  rw [flowOn_eq, flowOn_eq]
  refine (flowToAll_follows hR hf i i.jumps).bind fun _ _ _ _ => ?_
  split_ifs
  · exact fallThrough_follows hR hf ht i
  · exact markNext_follows hR ht

/-- What made the objects of a frame is known in the replica. -/
lemma Replica.transfer (hf : b.Made live f) (i : Insn) :
    i.transfer b'.context f = i.transfer b.context f := by
  rw [hR.context]
  refine transfer_withCode (fun offset hmem => ?_) i
  obtain ⟨n, hn, hlive⟩ := (List.forall₂_same.1 hf.stack _ hmem).2 offset rfl
  obtain ⟨k, hk, j, hj, hj'⟩ := hR.number hlive hn
  simp only [Body.context, hn, hk, Option.bind_some, hj, hj']

/-- A visit is followed at the twin of its instruction, which is live if it has a frame. -/
lemma visit_follows (hs : p.Sized b.insns.size) (hW : ∀ {n f}, p.frameAt n = some f → b.Made live f)
    (ht : b.Twin b' n k) (hn : ∀ {f}, p.frameAt n = some f → live n)
    (hrun : b.visit n p = .ok (u, q)) :
    Growth b .anyhow (b.Made live) p q ∧ ∀ {p'}, b.Mirrors b' p p' → AllLive live q →
    ∃ q', b'.visit k p' = .ok (u, q') ∧ b.Mirrors b' q q' := by
  obtain ⟨i, hi, hk⟩ := id ht
  rw [visit_eq hi] at hrun
  simp only [visit_eq hk]
  cases hf : p.frameAt n with
  | none =>
    obtain rfl : p = q := by simpa [hf] using hrun
    exact ⟨.refl p, fun {p'} hm _ => ⟨p', by rw [hm.frames ht, hf], hm⟩⟩
  | some f =>
    cases htr : i.transfer b.context f with
    | error e => simp [hf, htr] at hrun
    | ok after =>
      have hlive := hn hf
      have hmade := hW hf
      have hafter : b.Made live after := transfer_self
        ⟨n, (hR.placed.indexed _ _).2 ⟨i, hi, rfl⟩, hlive⟩ hmade htr
      simp only [hf, htr] at hrun
      obtain ⟨hgrow, hrest⟩ := (flowToHandlers_follows hR hlive hi fun c =>
        ⟨fitting_handler hmade c, fitting_handler hafter c⟩).bind
          (fun _ _ _ _ => flowOn_follows hR hafter ht i) (p := p.noted f after i)
            ⟨hs.frames, hs.queued, hs.targets⟩ hrun
      have hnoted : Growth b .anyhow (b.Made live) p (p.noted f after i) := .of_eq rfl rfl rfl rfl
      refine ⟨hnoted.trans hgrow, fun {p'} hm hall => ?_⟩
      simp only [hm.frames ht, hf, hR.transfer hmade, htr]
      exact hrest hm.noted hall

/-- What was reached stays reached. If all of it is live, the same visits are made in the
replica. -/
lemma settle_follows {fuel : Nat} (hs : p.Sized b.insns.size) (hrun : b.settle fuel p = .ok (u, q))
    (hlive : AllLive live q) :
    AllLive live p ∧ ((∀ {n f}, p.frameAt n = some f → b.Made live f) → ∀ {p'}, b.Mirrors b' p p' →
      ∃ q', b'.settle fuel p' = .ok (u, q') ∧ b.Mirrors b' q q') := by
  induction fuel using Nat.strong_induction_on generalizing p with
  | h fuel ih =>
    obtain ⟨hw, rfl⟩ | ⟨n, rest, fuel, p₁, rfl, hw, hv, hrun⟩ := settle_eq_ok hrun
    · refine ⟨hlive, fun _ p' hm => ⟨p', ?_, hm⟩⟩
      have hwork := hm.work
      rw [hw, List.forall₂_nil_left_iff] at hwork
      exact settle_of_work_eq_nil hwork fuel
    · have hs' : (dequeue p n rest).Sized b.insns.size := sized_dequeue hs
      obtain ⟨hgrow, -⟩ := visit_done hR.placed.indexed hs' hv
      obtain ⟨hlive₁, hrest⟩ := ih fuel (Nat.lt_succ_self _) (hgrow.sized hs') hrun
      have hlive₀ : AllLive live (dequeue p n rest) := hlive₁.of_growth hgrow
      refine ⟨hlive₀, fun hW p' hm => ?_⟩
      have hwork := hm.work
      rw [hw, List.forall₂_cons_left_iff] at hwork
      obtain ⟨k, rest', ht, hrest', hw'⟩ := hwork
      obtain ⟨hgrow, hvisit⟩ := visit_follows hR hs' hW ht (fun hf => hlive₀ hf) hv
      obtain ⟨p₁', hv', hm₁⟩ := hvisit (hm.dequeue hR hs ht hrest') hlive₁
      obtain ⟨q', hrun', hm'⟩ := hrest (hgrow.within hW) hm₁
      refine ⟨q', ?_, hm'⟩
      rw [settle_of_work_eq_cons hw']
      exact bind_eq_ok_iff.2 ⟨_, p₁', hv', hrun'⟩

lemma Replica.mirrors_start (hpos : 0 < b.insns.size) (hlive : live 0) (locals : List VType) :
    b.Mirrors b' (b.start locals) (b'.start locals) := by
  obtain ⟨k, hk, ht⟩ := hR.number hlive (hR.placed.number_zero hpos)
  have hpos' : 0 < b'.insns.size := by have := ht.lt; omega
  obtain rfl : k = 0 := Option.some.inj (hk.symm.trans (hR.placed'.number_zero hpos'))
  refine ⟨(listed_start locals hpos').1.sized, fun ht' => ?_, fun ht' => ?_, fun ht' => ?_,
    fun {l f} hl => ?_, .cons ht .nil, rfl, rfl⟩
  · simp only [frameAt_start hpos, frameAt_start hpos', hR.eq_iff ht ht']
  · have := ht'.lt
    simp [isTarget, start, Array.getD_eq_getD_getElem?, this]
  · have hz := hR.eq_iff ht ht'
    have := ht'.lt
    simp only [isQueued, start, Array.getD_eq_getD_getElem?]
    grind
  · rw [frameAt_start hpos'] at hl
    split_ifs at hl with hz
    exact ⟨0, hz ▸ ht⟩

end Follows

end Body

end Classwright
