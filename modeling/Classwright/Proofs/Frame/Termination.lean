import Mathlib.Data.Prod.Lex
import Classwright.Proofs.Frame.Names
import Classwright.Proofs.Frame.Settled
import Classwright.Proofs.Frame.Subclasses

/-!
An analysis comes to an end.

A merge leaves a frame as it is or puts some of its types further down a ladder of finite height. So
a visit either changes no frame and queues nothing, or it lowers the rank of all frames: the number
of instructions that were not reached, and then the sum of the heights of the others. The worklist
is shorter in the first case.

* `Frame.merge_lowers`: what a merge does to the height of a frame.
* `Body.visit_falls`: what a visit does to the rank of all frames.
* `Body.exists_settle_eq`: more steps than some number change nothing.
* `MethodCode.exists_analyzeWithin_eq`: an analysis ends with a result or an error.
-/

namespace Classwright

open List

variable {h : Hierarchy} {N : String → Prop}

/-! ### Heights -/

namespace VType

variable {x y : VType} {o : Option VType}

/-- How often a type can still be merged into another. Null may become any class, and all may become
unknown. -/
def height (L : h.Ladder N) : VType → Nat
  | .top => 0
  | .null => 2 + L.top
  | .ref c => 1 + L.height c
  | _ => 1

/-- What is merged is as it was or lower. -/
lemma merge_lowers (L : h.Ladder N) (hx : x.Within N) (hy : y.Within N) (hm : x.merge h y = .ok o) :
    (o.getD .top).Within N ∧ (o.getD .top = x ∨ (o.getD .top).height L < x.height L) := by
  unfold merge at hm
  split at hm
  · obtain rfl := Except.ok.inj hm
    exact ⟨hx, .inl rfl⟩
  split at hm
  · next c _ =>
    obtain rfl := Except.ok.inj hm
    have := L.le_top c
    exact ⟨hy, .inr (by simp only [Option.getD_some, height]; omega)⟩
  · obtain rfl := Except.ok.inj hm
    exact ⟨hx, .inl rfl⟩
  · next a b _ =>
    obtain ⟨c, hc, hm⟩ := Except.bind_eq_ok_iff.1 hm
    obtain rfl := Except.pure_eq_ok_iff.1 hm
    refine ⟨within_ref.2 (L.closed (within_ref.1 hx) (within_ref.1 hy) hc), ?_⟩
    by_cases hca : c = a
    · exact .inl (by simp [hca])
    · have := L.lt (within_ref.1 hx) hc hca
      exact .inr (by simp only [Option.getD_some, height]; omega)
  · obtain rfl := Except.ok.inj hm
    exact ⟨within_top, by cases x <;> simp [height]⟩

/-- The height of values together. -/
def heights (L : h.Ladder N) (vs : List VType) : Nat := (vs.map (height L)).sum

@[simp] lemma heights_cons (L : h.Ladder N) (v : VType) (vs : List VType) :
    heights L (v :: vs) = v.height L + heights L vs := by
  simp [heights]

/-- One value and the others are as they were or lower. -/
lemma heights_lt {L : h.Ladder N} {v x : VType} {vs xs : List VType}
    (hv : v = x ∨ v.height L < x.height L) (hvs : vs = xs ∨ heights L vs < heights L xs) :
    v :: vs = x :: xs ∨ heights L (v :: vs) < heights L (x :: xs) := by
  simp only [heights_cons]
  rcases hv with rfl | hv <;> rcases hvs with rfl | hvs
  · exact .inl rfl
  all_goals exact .inr (by omega)

end VType

open VType

lemma mergeStack_lowers (L : h.Ladder N) {source height : Nat} {xs ys zs : List VType}
    (hlen : xs.length = ys.length) (hx : ∀ v ∈ xs, v.Within N) (hy : ∀ v ∈ ys, v.Within N)
    (hm : mergeStack h source height xs ys = .ok zs) :
    (∀ v ∈ zs, v.Within N) ∧ (zs = xs ∨ heights L zs < heights L xs) := by
  induction xs generalizing ys zs height with
  | nil =>
    obtain rfl : [] = zs := Except.pure_eq_ok_iff.1 hm
    simp
  | cons x xs ih =>
    obtain ⟨y, ys, rfl⟩ := exists_cons_of_length_eq_add_one hlen.symm
    obtain ⟨v, vs, rfl, hv, hvs⟩ := mergeStack_eq_ok_iff.1 hm
    rw [forall_mem_cons] at hx hy ⊢
    obtain ⟨hwithin, hlow⟩ := VType.merge_lowers L hx.1 hy.1 hv
    obtain ⟨hwithins, hlows⟩ := ih (by simpa using hlen) hx.2 hy.2 hvs
    exact ⟨⟨hwithin, hwithins⟩, heights_lt hlow hlows⟩

lemma mergeLocals_lowers (L : h.Ladder N) {xs ys zs : List VType}
    (hx : ∀ n, (slotType xs n).Within N) (hy : ∀ n, (slotType ys n).Within N)
    (hm : mergeLocals h xs ys = .ok zs) :
    (∀ n, (slotType zs n).Within N) ∧ (zs = xs ∨ heights L zs < heights L xs) := by
  induction xs generalizing ys zs with
  | nil =>
    obtain rfl : [] = zs := Except.pure_eq_ok_iff.1 hm
    exact ⟨fun _ => within_top, .inl rfl⟩
  | cons x xs ih =>
    obtain ⟨o, vs, rfl, ho, hvs⟩ := mergeLocals_eq_ok_iff.1 hm
    have hhead : (ys.headD .top).Within N := by
      cases ys with
      | nil => exact within_top
      | cons y ys => exact hy 0
    have htail (n : Nat) : (slotType ys.tail n).Within N := by
      cases ys with
      | nil => exact within_top
      | cons y ys => simpa using hy (n + 1)
    obtain ⟨hwithin, hlow⟩ := VType.merge_lowers L (hx 0) hhead ho
    obtain ⟨hwithins, hlows⟩ := ih (fun n => by simpa using hx (n + 1)) htail hvs
    refine ⟨fun n => ?_, heights_lt hlow hlows⟩
    cases n with
    | zero => exact hwithin
    | succ n => simpa using hwithins n

namespace Frame

variable {f g r : Frame} {source : Nat}

def height (L : h.Ladder N) (f : Frame) : Nat := heights L f.locals + heights L f.stack

/-- A merge leaves a frame as it is or lowers it. -/
lemma merge_lowers (L : h.Ladder N) (hf : f.Within N) (hg : g.Within N)
    (hm : f.merge h g source = .ok r) : r.Within N ∧ (r = f ∨ r.height L < f.height L) := by
  obtain ⟨hlen, hs, hl⟩ := merge_eq_ok_iff.1 hm
  obtain ⟨hstack, hlow⟩ := mergeStack_lowers L hlen hf.stack hg.stack hs
  obtain ⟨hlocals, hlow'⟩ := mergeLocals_lowers L hf.locals hg.locals hl
  clear hm hs hl
  refine ⟨⟨hlocals, hstack⟩, ?_⟩
  obtain ⟨locals, stack⟩ := f
  obtain ⟨locals', stack'⟩ := r
  simp only [height, Frame.mk.injEq] at hlow hlow' ⊢
  rcases hlow with rfl | hlow <;> rcases hlow' with rfl | hlow'
  · exact .inl ⟨rfl, rfl⟩
  all_goals exact .inr (by omega)

end Frame

/-! ### Rank -/

lemma sum_map_set {α : Type} (w : α → Nat) {l : List α} {n : Nat} {old : α} (hn : l[n]? = some old)
    (x : α) : ((l.set n x).map w).sum + w old = (l.map w).sum + w x := by
  induction l generalizing n with
  | nil => simp at hn
  | cons a l ih =>
    cases n with
    | zero =>
      obtain rfl : a = old := by simpa using hn
      simp only [set_cons_zero, map_cons, sum_cons]
      omega
    | succ n =>
      have := ih (n := n) (by simpa using hn)
      simp only [set_cons_succ, map_cons, sum_cons]
      omega

namespace Progress

variable {p p' p'' : Progress} {size n : Nat} {f : Frame}

/-- The sum of a measure of the frames. -/
def total (w : Option Frame → Nat) (p : Progress) : Nat := (p.frames.toList.map w).sum

/-- The number of instructions that were not reached, and the height of all frames together. A frame
that is reached counts for more than all others that are lowered. -/
def rank (L : h.Ladder N) (p : Progress) : Nat ×ₗ Nat :=
  toLex (p.total fun o => if o.isNone then 1 else 0, p.total fun o => o.elim 0 (Frame.height L))

/-- Nothing has changed and nothing was queued, or the rank is lower. -/
def Lowers (L : h.Ladder N) (p p' : Progress) : Prop :=
  p'.frames = p.frames ∧ p'.work = p.work ∨ p'.rank L < p.rank L

lemma rank_congr (L : h.Ladder N) (hf : p'.frames = p.frames) : p'.rank L = p.rank L := by
  simp only [rank, total, hf]

lemma Lowers.refl (L : h.Ladder N) (p : Progress) : p.Lowers L p := .inl ⟨rfl, rfl⟩

lemma Lowers.trans {L : h.Ladder N} (hp : p.Lowers L p') (hp' : p'.Lowers L p'') :
    p.Lowers L p'' := by
  rcases hp with ⟨hf, hw⟩ | hlt
  · rcases hp' with ⟨hf', hw'⟩ | hlt'
    · exact .inl ⟨hf'.trans hf, hw'.trans hw⟩
    · exact .inr (rank_congr L hf ▸ hlt')
  · rcases hp' with ⟨hf', -⟩ | hlt'
    · exact .inr (rank_congr L hf' ▸ hlt)
    · exact .inr (hlt'.trans hlt)

lemma total_setFrame (w : Option Frame → Nat) {o : Option Frame}
    (ho : p.frames.toList[n]? = some o) :
    (p.setFrame n f).total w + w o = p.total w + w (some f) := by
  have hset : (p.setFrame n f).frames.toList = p.frames.toList.set n (some f) := by
    unfold setFrame enqueue
    split <;> simp
  rw [total, hset]
  exact sum_map_set w ho (some f)

/-- A first frame, or a lower one, lowers the rank. -/
lemma lowers_setFrame (L : h.Ladder N) (hs : p.Sized size) (hn : n < size)
    (hf : p.frameAt n = none ∨ ∃ old, p.frameAt n = some old ∧ f.height L < old.height L) :
    p.Lowers L (p.setFrame n f) := by
  obtain ⟨o, ho⟩ : ∃ o, p.frames.toList[n]? = some o :=
    ⟨_, getElem?_eq_getElem (by simpa [hs.frames] using hn)⟩
  have hat : p.frameAt n = o := by
    rw [frameAt, ← Array.getElem?_toList, ho]
    rfl
  have hun := total_setFrame (f := f) (fun o => if o.isNone then 1 else 0) ho
  have hht := total_setFrame (f := f) (fun o => o.elim 0 (Frame.height L)) ho
  refine .inr ?_
  rw [rank, rank, Prod.Lex.toLex_lt_toLex]
  rcases hf with hnone | ⟨old, hold, hlt⟩
  · -- The new frame may be of any height.
    obtain rfl : o = none := hat.symm.trans hnone
    simp only [Option.isNone_none, Option.isNone_some, if_true, Bool.false_eq_true, if_false] at hun
    exact .inl (by omega)
  · obtain rfl : o = some old := hat.symm.trans hold
    simp only [Option.isNone_some, Bool.false_eq_true, if_false] at hun
    simp only [Option.elim_some] at hht
    exact .inr ⟨by omega, by omega⟩

end Progress

/-! ### Visits -/

namespace Body

open Progress

variable {b : Body} {L : b.hierarchy.Ladder N} {p : Progress} {n : Nat} {i : Insn} {f : Frame}
  {α β : Type} {Q : α → Prop} {R : β → Prop}

/-- There is room for all instructions, and frames are within `N`. -/
structure Fit (b : Body) (N : String → Prop) (p : Progress) : Prop where
  sized : p.Sized b.insns.size
  within : ∀ {n f}, p.frameAt n = some f → f.Within N

/-- From `p` on, a step does not run out of fuel, keeps frames within `N` and does not raise their
rank. -/
structure Falls (b : Body) (L : b.hierarchy.Ladder N) (Q : α → Prop) (x : Analyze α)
    (p : Progress) : Prop where
  ends : x p ≠ .error .fuel
  fit : ∀ {a p'}, x p = .ok (a, p') → Q a ∧ b.Fit N p' ∧ p.Lowers L p'

namespace Falls

lemma bind {x : Analyze α} {k : α → Analyze β} (hx : b.Falls L Q x p)
    (hk : ∀ a p', Q a → b.Fit N p' → b.Falls L R (k a) p') : b.Falls L R (x >>= k) p := by
  refine ⟨fun hfuel => ?_, fun {_ _} hok => ?_⟩
  · change (x p >>= fun r => k r.1 r.2) = .error .fuel at hfuel
    cases hp : x p with
    | error e =>
      rw [hp] at hfuel
      cases hfuel
      exact hx.ends hp
    | ok r =>
      rw [hp] at hfuel
      obtain ⟨ha, hfit, -⟩ := hx.fit hp
      exact (hk r.1 r.2 ha hfit).ends hfuel
  · obtain ⟨a, q, ha, hb⟩ := StateT.bind_eq_ok_iff.1 hok
    obtain ⟨hQ, hq, hlow⟩ := hx.fit ha
    obtain ⟨hR, hq', hlow'⟩ := (hk a q hQ hq).fit hb
    exact ⟨hR, hq', hlow.trans hlow'⟩

lemma pure {a : α} (hp : b.Fit N p) (ha : Q a) : b.Falls L Q (Pure.pure a) p where
  ends := nofun
  fit hok := by
    obtain ⟨rfl, rfl⟩ := StateT.pure_eq_ok_iff.1 hok
    exact ⟨ha, hp, .refl L p⟩

lemma failAt {offset : Int} {op : Opcode} {t : Trouble} : b.Falls L Q (failAt offset op t) p where
  ends := by cases t <;> exact nofun
  fit hok := absurd hok failAt_ne_ok

lemma get_bind {k : Progress → Analyze β} (hk : b.Falls L R (k p) p) : b.Falls L R (get >>= k) p :=
  ⟨hk.ends, hk.fit⟩

/-- A step that leaves frames and worklist alone. -/
lemma modify {m : Progress → Progress} (hp : b.Fit N p) (hs : (m p).Sized b.insns.size)
    (hf : (m p).frames = p.frames) (hw : (m p).work = p.work) :
    b.Falls L (fun _ => True) (modify m) p where
  ends := nofun
  fit hok := by
    obtain rfl := StateT.modify_eq_ok_iff.1 hok
    exact ⟨trivial, ⟨hs, fun {n f} hat => hp.within (by rwa [frameAt, hf] at hat)⟩, .inl ⟨hf, hw⟩⟩

/-- A loop of such steps. -/
lemma forIn {xs : List α} {body : α → PUnit → Analyze (ForInStep PUnit)} (hp : b.Fit N p)
    (hbody : ∀ a ∈ xs, ∀ p, b.Fit N p → b.Falls L (fun _ => True) (body a ⟨⟩) p) :
    b.Falls L (fun _ => True) (forIn xs PUnit.unit body) p := by
  induction xs generalizing p with
  | nil => exact .pure hp trivial
  | cons a xs ih =>
    rw [forIn_cons]
    refine (hbody a mem_cons_self p hp).bind fun r p' _ hp' => ?_
    cases r with
    | done _ => exact .pure hp' trivial
    | yield _ => exact ih hp' fun a' ha' => hbody a' (mem_cons_of_mem _ ha')

end Falls

/-- A frame that is put in place lowers the rank. -/
lemma setFrame_falls (hp : b.Fit N p) (hn : n < b.insns.size) (hf : f.Within N)
    (hold : p.frameAt n = none ∨ ∃ old, p.frameAt n = some old ∧ f.height L < old.height L) :
    b.Falls L (fun _ => True) (modify fun p => p.setFrame n f) p where
  ends := nofun
  fit hok := by
    obtain rfl := StateT.modify_eq_ok_iff.1 hok
    refine ⟨trivial, ⟨hp.sized.setFrame, fun {m g} hat => ?_⟩, lowers_setFrame L hp.sized hn hold⟩
    rw [frameAt_setFrame hp.sized hn] at hat
    split_ifs at hat
    · exact Option.some.inj hat ▸ hf
    · exact hp.within hat

lemma flow_falls (hb : b.Indexed) (hp : b.Fit N p) (hf : f.Within N) (source : Insn) (t : Int) :
    b.Falls L (fun _ => True) (b.flow source t f) p := by
  unfold flow
  cases hn : b.number? t with
  | none => exact .failAt
  | some n =>
    have hlt := hb.lt hn
    refine .get_bind ?_
    cases hold : (p.frames[n]?).join with
    | none => exact setFrame_falls hp hlt hf (.inl hold)
    | some old =>
      cases hm : old.merge b.hierarchy f source.offset with
      | error e =>
        simp only [hm]
        exact .failAt
      | ok new =>
        simp only [hm]
        obtain ⟨hwithin, hlow⟩ := Frame.merge_lowers L (hp.within hold) hf hm
        -- The frame is queued again only if it has changed, and then it is lower.
        split_ifs with hne
        · exact setFrame_falls hp hlt hwithin (.inr ⟨old, hold, hlow.resolve_left hne⟩)
        · exact .pure hp trivial

lemma setTarget_falls (hp : b.Fit N p) (n : Nat) :
    b.Falls L (fun _ => True) (modify fun p => p.setTarget n) p :=
  .modify hp hp.sized.setTarget rfl rfl

lemma flowTo_falls (hb : b.Indexed) (hp : b.Fit N p) (hf : f.Within N) (source : Insn) (t : Int) :
    b.Falls L (fun _ => True) (b.flowTo source t f) p := by
  refine (flow_falls hb hp hf source t).bind fun _ q _ hq => ?_
  cases b.number? t with
  | none => exact .pure hq trivial
  | some n => exact setTarget_falls hq n

lemma fallThrough_falls (hb : b.Indexed) (hp : b.Fit N p) (hf : f.Within N) (n : Nat) (i : Insn) :
    b.Falls L (fun _ => True) (b.fallThrough n i f) p := by
  unfold fallThrough
  cases b.insns[n + 1]? with
  | none => exact .failAt
  | some next => exact flow_falls hb hp hf i next.offset

lemma caught_falls (hN : b.method.NamedBy N) (hp : b.Fit N p) (i : Insn) (catchType : UInt16) :
    b.Falls L (VType.Within N) (b.caught i catchType) p := by
  unfold caught
  split_ifs
  · exact .pure hp (within_ref.2 hN.throwable)
  · cases hname : b.method.pool.classAt catchType with
    | ok name => exact .pure hp (within_ref.2 (hN.pool _ name hname).1)
    | error e => exact .failAt

lemma flowToHandlers_falls (hb : b.Indexed) (hN : b.method.NamedBy N) (hp : b.Fit N p) (i : Insn)
    {before after : List VType} (hbefore : ∀ n, (slotType before n).Within N)
    (hafter : ∀ n, (slotType after n).Within N) :
    b.Falls L (fun _ => True) (b.flowToHandlers i before after) p := by
  have hframe {locals : List VType} {v : VType} (hl : ∀ n, (slotType locals n).Within N)
      (hv : v.Within N) : (⟨locals, [v]⟩ : Frame).Within N := ⟨hl, by simpa using hv⟩
  unfold flowToHandlers
  refine (Falls.forIn hp fun e _ q hq => ?_).bind fun _ q _ hq => .pure hq trivial
  split
  · refine (caught_falls hN hq i e.catchType).bind fun v q hv hq => ?_
    refine (flowTo_falls hb hq (hframe hbefore hv) i _).bind fun _ q _ hq => ?_
    split
    · exact (flow_falls hb hq (hframe hafter hv) i _).bind fun _ q _ hq => .pure hq trivial
    · exact .pure hq trivial
  · exact .pure hq trivial

lemma flowOn_falls (hb : b.Indexed) (hp : b.Fit N p) (hf : f.Within N) (n : Nat) (i : Insn) :
    b.Falls L (fun _ => True) (b.flowOn n i f) p := by
  rw [flowOn_eq]
  refine Falls.bind (Q := fun _ => True) ?_ fun _ q _ hq => ?_
  · unfold flowToAll
    refine (Falls.forIn hp fun t _ q hq => ?_).bind fun _ q _ hq => .pure hq trivial
    exact (flowTo_falls hb hq hf i t).bind fun _ q _ hq => .pure hq trivial
  · split_ifs
    · exact fallThrough_falls hb hq hf n i
    · exact setTarget_falls hq (n + 1)

/-- A visit changes nothing but the marks, or lowers the rank. -/
lemma visit_falls (hb : b.Indexed) (hN : b.method.NamedBy N) (hp : b.Fit N p) (n : Nat) :
    b.Falls L (fun _ => True) (b.visit n) p := by
  unfold visit
  refine .get_bind ?_
  cases b.insns[n]? with
  | none => exact .pure hp trivial
  | some i =>
    cases hf : (p.frames[n]?).join with
    | none => exact .pure hp trivial
    | some f =>
      have hwithin : f.Within N := hp.within hf
      refine (Falls.modify hp ⟨hp.sized.frames, hp.sized.queued, hp.sized.targets⟩ rfl rfl).bind
        fun _ q _ hq => ?_
      cases htr : i.transfer b.context f with
      | error t => exact .failAt
      | ok after =>
        have hafter : after.Within N := Insn.transfer_within hN hwithin htr
        refine (Falls.modify hq ⟨hq.sized.frames, hq.sized.queued, hq.sized.targets⟩ rfl rfl).bind
          fun _ q _ hq => ?_
        exact (flowToHandlers_falls hb hN hq i hwithin.locals hafter.locals).bind
          fun _ q _ hq => flowOn_falls hb hq hafter n i

/-! ### The loop -/

/-- With enough steps, nothing is left to look at or an error was found. -/
lemma exists_settle_eq (L : b.hierarchy.Ladder N) (hb : b.Indexed) (hN : b.method.NamedBy N)
    (hp : b.Fit N p) : ∃ n r, r ≠ .error .fuel ∧ ∀ fuel, n ≤ fuel → b.settle fuel p = r := by
  -- The rank falls, or it stays as it is and the worklist is shorter.
  induction hk : toLex (p.rank L, p.work.length) using WellFoundedLT.induction generalizing p with
  | ind k ih =>
    cases hw : p.work with
    | nil => exact ⟨0, .ok ((), p), nofun, fun fuel _ => settle_of_work_eq_nil hw fuel⟩
    | cons n rest =>
      have hq : b.Fit N (dequeue p n rest) := ⟨sized_dequeue hp.sized, hp.within⟩
      obtain ⟨hends, hfit⟩ := visit_falls (L := L) hb hN hq n
      have hrun (fuel : Nat) : b.settle (fuel + 1) p =
          b.visit n (dequeue p n rest) >>= fun r => b.settle fuel r.2 :=
        settle_of_work_eq_cons hw fuel
      cases hv : b.visit n (dequeue p n rest) with
      | error e =>
        refine ⟨1, .error e, ?_, fun fuel hfuel => ?_⟩
        · rintro ⟨⟩
          exact hends hv
        · obtain ⟨fuel, rfl⟩ := Nat.exists_eq_add_of_le' hfuel
          rw [hrun, hv]
          rfl
      | ok r =>
        obtain ⟨-, hfit', hlow⟩ := hfit hv
        have hlt : toLex (r.2.rank L, r.2.work.length) < k := by
          rw [← hk, Prod.Lex.toLex_lt_toLex]
          rcases hlow with ⟨hframes, hwork⟩ | hlt
          · refine .inr ⟨rank_congr L hframes, ?_⟩
            rw [hwork, hw]
            exact Nat.lt_succ_self _
          · exact .inl hlt
        obtain ⟨m, r', hr', hm⟩ := ih _ hlt hfit' rfl
        refine ⟨m + 1, r', hr', fun fuel hfuel => ?_⟩
        obtain ⟨fuel, rfl⟩ := Nat.exists_eq_add_of_le' (Nat.le_of_add_left_le hfuel)
        rw [hrun, hv]
        exact hm fuel (by omega)

end Body

/-! ### Methods -/

namespace MethodCode

variable {m : MethodCode} {locals : List VType} {sig : List String × String}

/-- Parameters are of classes that the method names. -/
lemma initialLocals_within (hN : m.NamedBy N)
    (hsig : Descriptor.parse m.desc = .ok sig) (hl : m.initialLocals sig.1 = .ok locals) :
    ∀ v ∈ locals, v.Within N := by
  intro v hv
  rcases (initialLocals_spec hl).2 v hv with rfl | rfl | rfl | ⟨p, hp, hv⟩
  · exact nofun
  · exact within_ref.2 hN.owner
  · exact within_top
  · exact hN.params sig hsig p hp v hv

/-- The state before the first visit is within the classes of the method. -/
lemma fit_start {b : Body} (hpos : 0 < b.insns.size) (hl : ∀ v ∈ locals, v.Within N) :
    b.Fit N (b.start locals) := by
  refine ⟨(Body.listed_start locals hpos).1.sized, fun {n f} hat => ?_⟩
  rw [Body.frameAt_start hpos] at hat
  split_ifs at hat
  obtain rfl := Option.some.inj hat
  refine ⟨fun n => ?_, by simp⟩
  unfold slotType
  cases hv : locals[n]? with
  | none => exact within_top
  | some v => exact hl v (mem_of_getElem? hv)

lemma ok_bind {ε α β : Type} (a : α) (f : α → Except ε β) : Except.ok a >>= f = f a := rfl

/-- Once a method is decoded, its analysis is the loop from the first state on. -/
lemma analyzeWithin_eq_settle {insns : List Insn} (hne : ¬ m.code.isEmpty)
    (hd : Insn.decodeAll m.code = .ok insns) (hsig : Descriptor.parse m.desc = .ok sig)
    (hl : m.initialLocals sig.1 = .ok locals) (fuel : Nat) (h : Hierarchy) :
    m.analyzeWithin fuel h = (Body.ofInsns m h sig.2 insns).settle fuel
    ((Body.ofInsns m h sig.2 insns).start locals) >>=
    fun r => .ok ((Body.ofInsns m h sig.2 insns).analysis locals r.2) := by
  unfold analyzeWithin
  rw [if_neg hne]
  simp only [hd, hsig, hl, Except.mapError, ok_bind]
  rfl

/-- If superclasses end, an analysis ends, with a result or an error. More steps change nothing. -/
theorem exists_analyzeWithin_eq (m : MethodCode) {h : Hierarchy} (hh : ∀ a, h.Ends a) :
    ∃ n r, r ≠ .error .fuel ∧ ∀ fuel, n ≤ fuel → m.analyzeWithin fuel h = r := by
  have hfail {e : AnalysisError} (he : e ≠ .fuel) (hm : ∀ fuel, m.analyzeWithin fuel h = .error e) :
      ∃ n r, r ≠ .error .fuel ∧ ∀ fuel, n ≤ fuel → m.analyzeWithin fuel h = r :=
    ⟨0, .error e, by simpa using he, fun fuel _ => hm fuel⟩
  by_cases hne : m.code.isEmpty
  · exact hfail (e := .frame ⟨0, Action.nop.opcode, .emptyBody⟩) nofun fun fuel => by
      rw [analyzeWithin, if_pos hne]; rfl
  cases hd : Insn.decodeAll m.code with
  | error e =>
    exact hfail (e := .decode e) nofun fun fuel => by rw [analyzeWithin, if_neg hne, hd]; rfl
  | ok insns =>
  cases hsig : Descriptor.parse m.desc with
  | error e =>
      exact hfail (e := .descriptor e) nofun fun fuel =>
        by rw [analyzeWithin, if_neg hne, hd, hsig]; rfl
  | ok sig =>
  cases hl : m.initialLocals sig.1 with
  | error e =>
      refine hfail (e := .misuse e) nofun fun fuel => ?_
      rw [analyzeWithin, if_neg hne]
      simp only [hd, hsig, hl, Except.mapError, ok_bind]
      rfl
  | ok locals =>
      have hdec : Insn.Decodes 0 m.code insns := Insn.decodeAll_eq_ok_iff.1 hd
      have hpos : 0 < (Body.ofInsns m h sig.2 insns).insns.size :=
        List.length_pos_iff.2 (hdec.ne_nil (by simpa using hne))
      have hN := namedBy_derives m h
      obtain ⟨L⟩ := Hierarchy.exists_ladder hh m.names
      obtain ⟨n, r, hr, hn⟩ := Body.exists_settle_eq (b := Body.ofInsns m h sig.2 insns) L
        (Body.indexed_ofInsns hdec) hN (fit_start hpos (initialLocals_within hN hsig hl))
      refine ⟨n, r >>= fun r => .ok ((Body.ofInsns m h sig.2 insns).analysis locals r.2), ?_,
        fun fuel hfuel => ?_⟩
      · cases r with
        | error e =>
            rintro ⟨⟩
            exact hr rfl
        | ok r => exact nofun
      · rw [analyzeWithin_eq_settle hne hd hsig hl, hn fuel hfuel]

end MethodCode

/-- A loop in which a local becomes an array: both classes extend the array class of the first. -/
def growingLoop : MethodCode where
  owner := "a"
  desc := "(Lx;Ly;)V"
  isStatic := true
  isConstructor := false
  code := [0x2B, 0x4B, 0xA7, 0xFF, 0xFE]
  handlers := []
  pool := .empty

def growingClasses : Hierarchy := ⟨[("x", ⟨"[Lx;", false⟩), ("y", ⟨"[Lx;", false⟩)]⟩

theorem exists_analyzeWithin_eq_growingLoop :
    (∀ a, growingClasses.Ends a) ∧ growingClasses.common "x" "y" = .ok "[Lx;" ∧
    ∃ n r, r ≠ .error .fuel ∧
    ∀ fuel, n ≤ fuel → growingLoop.analyzeWithin fuel growingClasses = r := by
  have hends : growingClasses.Ending :=
    Hierarchy.ending_of_known (t := "?") (n := 9) (by decide +kernel)
  exact ⟨hends, by decide +kernel, growingLoop.exists_analyzeWithin_eq hends⟩

end Classwright
