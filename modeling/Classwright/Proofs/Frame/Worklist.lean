import Classwright.Proofs.Frame.Monotone

/-!
The worklist.

A visit of an instruction makes frames larger and never smaller (`Growth`). Two things hold between
visits. What is not queued is `Settled`: the frames of its successors and handlers cover what it
sends there. And an instruction that is entered from the one before it only has a frame of the shape
that the one before it leaves (`Entered`), so that its frame need not be written down.
`settle_sound` is both at the end, where nothing is queued.
-/

namespace Classwright

open Classwright.StateT (bind_eq_ok_iff pure_eq_ok_iff)

/-! ### Where control goes -/

namespace Insn

/-- The offsets an instruction may jump to. -/
def jumps (i : Insn) : List Int :=
  match i.op.action? with
  | some .tableSwitch | some .lookupSwitch => i.default :: i.targets
  | some a => if a.isBranch || a = .gotoWide then [i.operand] else []
  | none => []

/-- Whether control may go on to the next instruction. -/
def fallsThrough (i : Insn) : Bool :=
  match i.op.action? with
  | some .tableSwitch | some .lookupSwitch => false
  | some a => if a.isBranch || a = .gotoWide then a.isConditional else !a.endsBlock
  | none => true

lemma action_of_fallsThrough {i : Insn} (hi : i.fallsThrough) :
    i.op.action? ≠ some .returnVoid := by
  intro ha
  unfold fallsThrough at hi
  rw [ha] at hi
  simp [Action.isBranch, Action.endsBlock, Action.isReturn] at hi

end Insn

/-- Whether an instruction stands in a protected range. -/
def ExceptionEntry.covers (e : ExceptionEntry) (offset : Nat) : Bool :=
  e.start.toNat ≤ offset && offset < e.stop.toNat

/-- The type of what a handler catches. -/
def MethodCode.caught? (m : MethodCode) (catchType : UInt16) : Option VType :=
  if catchType = 0 then some (.ref throwableClass)
  else match m.pool.classAt catchType with
    | .ok name => some (.ref name)
    | .error _ => none

lemma MethodCode.exists_ref_of_caught? {m : MethodCode} {catchType : UInt16} {v : VType}
    (hv : m.caught? catchType = some v) : ∃ c, v = .ref c := by
  unfold caught? at hv
  split at hv
  · exact ⟨_, (Option.some.inj hv).symm⟩
  · split at hv
    · exact ⟨_, (Option.some.inj hv).symm⟩
    · simp at hv

/-! ### Orders of frames -/

/-- A preorder in which frames grow. -/
structure Frame.Order where
  le : Frame → Frame → Prop
  refl : ∀ f, le f f
  trans : ∀ {f g r}, le f g → le g r → le f r

/-- Frames grow as what they admit. -/
def Frame.Order.passing (h : Hierarchy) : Frame.Order := ⟨Frame.Passes h, .refl, .trans⟩

/-- Nothing is said of how frames grow. -/
def Frame.Order.anyhow : Frame.Order := ⟨fun _ _ => True, fun _ => trivial, fun _ _ => trivial⟩

/-! ### Progress -/

namespace Progress

/-- The frame before an instruction, if it was reached. -/
def frameAt (p : Progress) (n : Nat) : Option Frame := (p.frames[n]?).join

def isTarget (p : Progress) (n : Nat) : Bool := p.targets.getD n false

def isQueued (p : Progress) (n : Nat) : Bool := p.queued.getD n false

/-- A frame put in place, and its instruction to be looked at again. -/
def setFrame (p : Progress) (n : Nat) (f : Frame) : Progress :=
  { p with frames := p.frames.setIfInBounds n (some f) }.enqueue n

def setTarget (p : Progress) (n : Nat) : Progress :=
  { p with targets := p.targets.setIfInBounds n true }

/-- The frames before and after an instruction count for the room that is needed. -/
def noted (p : Progress) (f after : Frame) (i : Insn) : Progress :=
  { (p.note f.words).note after.words with maxLocals := max p.maxLocals i.localLimit }

/-- There is room for `size` instructions. -/
structure Sized (size : Nat) (p : Progress) : Prop where
  frames : p.frames.size = size
  queued : p.queued.size = size
  targets : p.targets.size = size

variable {p : Progress} {size n m : Nat} {f : Frame}

lemma getD_setIfInBounds {α : Type} (xs : Array α) (n m : Nat) (a d : α) :
    (xs.setIfInBounds n a).getD m d = if n = m ∧ n < xs.size then a else xs.getD m d := by
  simp only [Array.getD_eq_getD_getElem?, Array.getElem?_setIfInBounds]
  grind

lemma lt_of_frameAt (hs : p.Sized size) (hf : p.frameAt n = some f) : n < size := by
  by_contra hn
  have : p.frames[n]? = none := Array.getElem?_eq_none (by have := hs.frames; omega)
  simp [frameAt, this] at hf

lemma enqueue_frameAt : (p.enqueue n).frameAt m = p.frameAt m := by
  unfold enqueue
  split <;> rfl

lemma frameAt_setFrame (hs : p.Sized size) (hn : n < size) :
    (p.setFrame n f).frameAt m = if m = n then some f else p.frameAt m := by
  rw [setFrame, enqueue_frameAt]
  simp only [frameAt, Array.getElem?_setIfInBounds, hs.frames, hn]
  split_ifs <;> grind

lemma isTarget_setFrame : (p.setFrame n f).isTarget m = p.isTarget m := by
  unfold setFrame enqueue
  split <;> rfl

lemma isQueued_setFrame (hs : p.Sized size) (hn : n < size) :
    (p.setFrame n f).isQueued m = if m = n then true else p.isQueued m := by
  unfold setFrame enqueue
  split
  · next hq =>
    split_ifs with hm
    · exact hm ▸ hq
    · rfl
  · simp only [isQueued, getD_setIfInBounds, hs.queued]
    grind

lemma mem_work_setFrame (hw : ∀ m, p.isQueued m → m ∈ p.work) (hs : p.Sized size) (hn : n < size)
    (hq : (p.setFrame n f).isQueued m) : m ∈ (p.setFrame n f).work := by
  rw [isQueued_setFrame hs hn] at hq
  unfold setFrame enqueue
  split
  · next h =>
    split_ifs at hq with hm
    · exact hw m (hm ▸ h)
    · exact hw m hq
  · split_ifs at hq with hm
    · simp [hm]
    · exact List.mem_cons_of_mem _ (hw m hq)

lemma Sized.setFrame (hs : p.Sized size) : (p.setFrame n f).Sized size := by
  unfold Progress.setFrame enqueue
  split
  · exact ⟨by simp [hs.frames], hs.queued, hs.targets⟩
  · exact ⟨by simp [hs.frames], by simp [hs.queued], hs.targets⟩

lemma Sized.setTarget (hs : p.Sized size) : (p.setTarget n).Sized size :=
  ⟨hs.frames, hs.queued, by simp [Progress.setTarget, hs.targets]⟩

lemma isTarget_setTarget (hs : p.Sized size) :
    (p.setTarget n).isTarget m = if m = n ∧ n < size then true else p.isTarget m := by
  simp only [isTarget, setTarget, getD_setIfInBounds, hs.targets]
  grind

/-- The frame of an instruction covers another. -/
def Covers (O : Frame.Order) (p : Progress) (n : Nat) (f : Frame) : Prop :=
  ∃ g, p.frameAt n = some g ∧ O.le f g

/-- Nothing is lost from one state to a later one, what has changed is queued, and frames stay
within `W`. -/
structure Growth (b : Body) (O : Frame.Order) (W : Frame → Prop) (p p' : Progress) : Prop where
  sized : p.Sized b.insns.size → p'.Sized b.insns.size
  frames : ∀ {n f}, p.frameAt n = some f → p'.Covers O n f
  targets : ∀ {n}, p.isTarget n → p'.isTarget n
  queued : ∀ {n}, p.isQueued n → p'.isQueued n
  changed : ∀ n, p'.frameAt n = p.frameAt n ∨ p'.isQueued n
  work : (∀ n, p.isQueued n → n ∈ p.work) → ∀ n, p'.isQueued n → n ∈ p'.work
  within : (∀ {n f}, p.frameAt n = some f → W f) → ∀ {n f}, p'.frameAt n = some f → W f

variable {b : Body} {O : Frame.Order} {W : Frame → Prop} {p' p'' : Progress}

lemma Growth.of_eq (hframes : p'.frames = p.frames) (htargets : p'.targets = p.targets)
    (hqueued : p'.queued = p.queued) (hwork : p'.work = p.work) : Growth b O W p p' where
  sized hs := ⟨hframes ▸ hs.frames, hqueued ▸ hs.queued, htargets ▸ hs.targets⟩
  frames hf := ⟨_, by simpa [frameAt, hframes] using hf, O.refl _⟩
  targets ht := by simpa [isTarget, htargets] using ht
  queued hq := by simpa [isQueued, hqueued] using hq
  changed n := .inl (by simp [frameAt, hframes])
  work hw n hq := hwork ▸ hw n (by simpa [isQueued, hqueued] using hq)
  within hW n f hf := hW (by simpa [frameAt, hframes] using hf)

lemma Growth.refl (p : Progress) : Growth b O W p p := .of_eq rfl rfl rfl rfl

lemma Covers.mono (hc : p.Covers O n f) (hg : Growth b O W p p') : p'.Covers O n f := by
  obtain ⟨g, hp, hfg⟩ := hc
  obtain ⟨g', hp', hgg⟩ := hg.frames hp
  exact ⟨g', hp', O.trans hfg hgg⟩

lemma Growth.trans (hg : Growth b O W p p') (hg' : Growth b O W p' p'') : Growth b O W p p'' where
  sized hs := hg'.sized (hg.sized hs)
  frames hf := (hg.frames hf).mono hg'
  targets ht := hg'.targets (hg.targets ht)
  queued hq := hg'.queued (hg.queued hq)
  changed n := by
    rcases hg'.changed n with he | hq
    · rcases hg.changed n with he' | hq
      · exact .inl (he.trans he')
      · exact .inr (hg'.queued hq)
    · exact .inr hq
  work hw := hg'.work (hg.work hw)
  within hW := hg'.within (hg.within hW)

lemma Growth.not_target (hg : Growth b O W p p') (hn : p'.isTarget n = false) :
    p.isTarget n = false := by
  by_contra ht
  rw [hg.targets (by simpa using ht)] at hn
  cases hn

/-- Frames change at most where one will be written down. -/
def Quiet (p p' : Progress) : Prop := ∀ n, p'.isTarget n = false → p'.frameAt n = p.frameAt n

lemma Quiet.trans (hq : Quiet p p') (hq' : Quiet p' p'') (hg : Growth b O W p' p'') :
    Quiet p p'' := by
  intro n hn
  rw [hq' n hn, hq n (hg.not_target hn)]

/-- Both of a growth that leaves alone what will not be written down. -/
def Marks (b : Body) (O : Frame.Order) (W : Frame → Prop) (p p' : Progress) : Prop :=
  Growth b O W p p' ∧ Quiet p p'

lemma Marks.refl (p : Progress) : Marks b O W p p := ⟨.refl p, fun _ _ => rfl⟩

lemma Marks.trans (hm : Marks b O W p p') (hm' : Marks b O W p' p'') : Marks b O W p p'' :=
  ⟨hm.1.trans hm'.1, hm.2.trans hm'.2 hm'.1⟩

lemma Growth.setTarget (hs : p.Sized b.insns.size) : Growth b O W p (p.setTarget n) where
  sized hs := hs.setTarget
  frames hf := ⟨_, hf, O.refl _⟩
  targets ht := by
    rw [isTarget_setTarget hs]
    split_ifs
    · rfl
    · exact ht
  queued := id
  changed n := .inl rfl
  work := id
  within := id

end Progress

/-! ### Flows -/

namespace Body

open Progress

/-- Offsets and numbers of instructions go together. -/
def Indexed (b : Body) : Prop :=
  ∀ (t : Int) (n : Nat), b.number? t = some n ↔ ∃ i, b.insns[n]? = some i ∧ (i.offset : Int) = t

/-- What the frames of a body are, and that they are so when merged. -/
structure Setting (b : Body) (O : Frame.Order) (W : Frame → Prop) : Prop where
  indexed : b.Indexed
  upper : ∀ {f g r source}, f.merge b.hierarchy g source = .ok r → O.le f r ∧ O.le g r
  merge : ∀ {f g r source}, W f → W g → f.merge b.hierarchy g source = .ok r → W r

variable {b : Body} {O : Frame.Order} {W : Frame → Prop} {p p' : Progress} {n : Nat} {f g : Frame}
  {source : Insn}  {t : Int} {u : Unit} {i : Insn} {before after : List VType}

lemma Indexed.lt (hb : b.Indexed) (hn : b.number? t = some n) : n < b.insns.size := by
  obtain ⟨i, hi, -⟩ := (hb t n).1 hn
  exact (Array.getElem?_eq_some_iff.1 hi).1

@[simp] lemma failAt_ne_ok {α : Type} {offset : Int} {op : Opcode} {e : Trouble}
    {r : α × Progress} : failAt offset op e p ≠ .ok r := by
  cases e <;> exact StateT.throw_ne_ok

/-- A frame `f` has come to the instruction `n`, whose frame is now `g`. -/
structure Flowed (b : Body) (O : Frame.Order) (W : Frame → Prop) (p p' : Progress) (source n : Nat)
    (f g : Frame) : Prop where
  growth : Growth b O W p p'
  frame : p'.frameAt n = some g
  others : ∀ m, m ≠ n → p'.frameAt m = p.frameAt m
  targets : ∀ m, p'.isTarget m = p.isTarget m
  merged : p.frameAt n = none ∧ g = f ∨
    ∃ old, p.frameAt n = some old ∧ old.merge b.hierarchy f source = .ok g

lemma Flowed.le (hb : b.Setting O W) {k : Nat} (hf : Flowed b O W p p' k n f g) : O.le f g := by
  rcases hf.merged with ⟨-, rfl⟩ | ⟨old, -, hm⟩
  · exact O.refl g
  · exact (hb.upper hm).2

/-- A frame put in place of one it covers. -/
lemma growth_setFrame (hs : p.Sized b.insns.size) (hn : n < b.insns.size)
    (hold : ∀ old, p.frameAt n = some old → O.le old g)
    (hg : (∀ {n f}, p.frameAt n = some f → W f) → W g) : Growth b O W p (p.setFrame n g) where
  sized hs := hs.setFrame
  frames := by
    intro m f hf
    rw [Covers, frameAt_setFrame hs hn]
    split_ifs with hm
    · exact ⟨g, rfl, hold f (hm ▸ hf)⟩
    · exact ⟨f, hf, O.refl f⟩
  targets ht := by rwa [isTarget_setFrame]
  queued hq := by
    rw [isQueued_setFrame hs hn]
    split_ifs
    · rfl
    · exact hq
  changed m := by
    rw [frameAt_setFrame hs hn, isQueued_setFrame hs hn]
    split_ifs
    · exact .inr rfl
    · exact .inl rfl
  work hw m hq := mem_work_setFrame hw hs hn hq
  within hW m f hf := by
    rw [frameAt_setFrame hs hn] at hf
    split_ifs at hf
    · exact Option.some.inj hf ▸ hg hW
    · exact hW hf

lemma flowed_setFrame (hb : b.Setting O W) (hs : p.Sized b.insns.size) (hn : n < b.insns.size)
    (hW : W f) {k : Nat} (hm : p.frameAt n = none ∧ g = f ∨ ∃ old, p.frameAt n = some old ∧
    old.merge b.hierarchy f k = .ok g) : Flowed b O W p (p.setFrame n g) k n f g where
  growth := by
    rcases hm with ⟨hnone, rfl⟩ | ⟨old, hold, hm⟩
    · exact growth_setFrame hs hn (by simp [hnone]) fun _ => hW
    · refine growth_setFrame hs hn (fun old' hold' => ?_) fun hall => hb.merge (hall hold) hW hm
      obtain rfl : old = old' := Option.some.inj (hold.symm.trans hold')
      exact (hb.upper hm).1
  frame := by simp [frameAt_setFrame hs hn]
  others m hne := by simp [frameAt_setFrame hs hn, hne]
  targets m := isTarget_setFrame
  merged := hm

lemma get_bind_apply {α : Type} (k : Progress → Analyze α) (p : Progress) : (get >>= k) p = k p p :=
  rfl

/-- What comes to a target of some number. -/
lemma flow_eq (hn : b.number? t = some n) : b.flow source t f p =
    match p.frameAt n with
    | none => .ok ((), p.setFrame n f)
    | some old =>
      match old.merge b.hierarchy f source.offset with
      | .error e => failAt t ((b.insns[n]?).map (·.op) |>.getD default) e p
      | .ok new => .ok ((), if new ≠ old then p.setFrame n new else p) := by
  simp only [flow, hn, get_bind_apply, frameAt]
  cases (p.frames[n]?).join with
  | none => rfl
  | some old =>
    dsimp only
    cases old.merge b.hierarchy f source.offset with
    | error e => rfl
    | ok new =>
      dsimp only
      split_ifs <;> rfl

lemma flow_flowed (hb : b.Setting O W) (hs : p.Sized b.insns.size) (hW : W f)
    (hf : b.flow source t f p = .ok (u, p')) :
    ∃ n g, b.number? t = some n ∧ Flowed b O W p p' source.offset n f g := by
  cases hn : b.number? t with
  | none => simp [flow, hn] at hf
  | some n =>
    rw [flow_eq hn] at hf
    have hlt := hb.indexed.lt hn
    cases hold : p.frameAt n with
    | none =>
      obtain rfl : p.setFrame n f = p' := by simpa [hold] using hf
      exact ⟨n, f, rfl, flowed_setFrame hb hs hlt hW (.inl ⟨hold, rfl⟩)⟩
    | some old =>
      cases hm : old.merge b.hierarchy f source.offset with
      | error e => simp [hold, hm] at hf
      | ok new =>
        obtain rfl : (if new ≠ old then p.setFrame n new else p) = p' := by
          simpa [hold, hm] using hf
        refine ⟨n, new, rfl, ?_⟩
        split_ifs with hne
        · exact flowed_setFrame hb hs hlt hW (.inr ⟨old, hold, hm⟩)
        · obtain rfl : new = old := by simpa using hne
          exact ⟨.refl p, hold, fun _ _ => rfl, fun _ => rfl, .inr ⟨new, hold, hm⟩⟩

lemma fallThrough_flowed (hb : b.Setting O W) (hs : p.Sized b.insns.size) (hW : W f)
    (hrun : b.fallThrough n i f p = .ok (u, p')) : ∃ g, Flowed b O W p p' i.offset (n + 1) f g := by
  unfold fallThrough at hrun
  cases hnext : b.insns[n + 1]? with
  | none => simp [hnext] at hrun
  | some next =>
    simp only [hnext] at hrun
    obtain ⟨n', g, hn', hfl⟩ := flow_flowed hb hs hW hrun
    obtain rfl : n + 1 = n' :=
      Option.some.inj (((hb.indexed _ _).2 ⟨next, hnext, rfl⟩).symm.trans hn')
    exact ⟨g, hfl⟩

/-- The frame of a target, which will be written down, covers another. -/
def Reached (b : Body) (O : Frame.Order) (t : Int) (f : Frame) (p : Progress) : Prop :=
  ∃ n, b.number? t = some n ∧ p.isTarget n ∧ p.Covers O n f

lemma Reached.mono (hr : b.Reached O t f p) (hg : Growth b O W p p') : b.Reached O t f p' := by
  obtain ⟨n, hn, ht, hc⟩ := hr
  exact ⟨n, hn, hg.targets ht, hc.mono hg⟩

/-- Marking is a growth of its own, and the frame of what is marked may have changed. -/
lemma flowTo_marks (hb : b.Setting O W) (hs : p.Sized b.insns.size) (hW : W f)
    (hf : b.flowTo source t f p = .ok (u, p')) : Marks b O W p p' ∧ b.Reached O t f p' := by
  obtain ⟨_, q, hflow, hf⟩ := bind_eq_ok_iff.1 hf
  obtain ⟨n, g, hn, hfl⟩ := flow_flowed hb hs hW hflow
  have hsq := hfl.growth.sized hs
  have hlt := hb.indexed.lt hn
  rw [hn] at hf
  obtain rfl : q.setTarget n = p' := StateT.modify_eq_ok_iff.1 hf
  have hgrow := hfl.growth.trans (Growth.setTarget (n := n) hsq)
  have htarget (m : Nat) : (q.setTarget n).isTarget m = if m = n then true else q.isTarget m := by
    simp [isTarget_setTarget hsq, hlt]
  refine ⟨⟨hgrow, fun m hm => ?_⟩, n, hn, by simp [htarget], g, hfl.frame, hfl.le hb⟩
  rw [htarget] at hm
  split_ifs at hm with hmn
  exact hfl.others m hmn

/-- A second frame that comes to a target. -/
lemma flow_marks (hb : b.Setting O W) (hs : p.Sized b.insns.size) (hW : W f)
    (hr : b.Reached O t g p) (hf : b.flow source t f p = .ok (u, p')) :
    Marks b O W p p' ∧ b.Reached O t f p' := by
  obtain ⟨n, k, hn, hfl⟩ := flow_flowed hb hs hW hf
  obtain ⟨n', hn', ht, -⟩ := hr
  obtain rfl : n = n' := Option.some.inj (hn.symm.trans hn')
  refine ⟨⟨hfl.growth, fun m hm => hfl.others m ?_⟩, n, hn, hfl.growth.targets ht, k, hfl.frame,
    hfl.le hb⟩
  rintro rfl
  rw [hfl.targets, ht] at hm
  cases hm

lemma caught_eq_ok {catchType : UInt16} {v : VType} (hc : b.caught i catchType p = .ok (v, p')) :
    p' = p ∧ b.method.caught? catchType = some v := by
  unfold caught at hc
  unfold MethodCode.caught?
  split at hc
  · obtain ⟨rfl, rfl⟩ := pure_eq_ok_iff.1 hc
    exact ⟨rfl, by simp_all⟩
  · next h0 =>
    rw [if_neg h0]
    cases hname : b.method.pool.classAt catchType with
    | ok name =>
      simp only [hname] at hc
      obtain ⟨rfl, rfl⟩ := pure_eq_ok_iff.1 hc
      exact ⟨rfl, rfl⟩
    | error e => simp [hname] at hc

/-- A handler of an instruction has a frame for the locals before it and, if it writes one, for
those after it. -/
def Handled (b : Body) (O : Frame.Order) (i : Insn) (before after : List VType)
    (e : ExceptionEntry) (p : Progress) : Prop :=
  e.covers i.offset → ∃ v, b.method.caught? e.catchType = some v ∧
    b.Reached O e.handler.toNat ⟨before, [v]⟩ p ∧
      (i.isStore → b.Reached O e.handler.toNat ⟨after, [v]⟩ p)

lemma Handled.mono {e : ExceptionEntry} (hr : b.Handled O i before after e p)
    (hg : Growth b O W p p') : b.Handled O i before after e p' := by
  intro hc
  obtain ⟨v, hv, hb, ha⟩ := hr hc
  exact ⟨v, hv, hb.mono hg, fun hi => (ha hi).mono hg⟩

lemma flowToHandlers_marks (hb : b.Setting O W) (hs : p.Sized b.insns.size)
    (hW : ∀ c : String, W ⟨before, [.ref c]⟩ ∧ W ⟨after, [.ref c]⟩)
    (hf : b.flowToHandlers i before after p = .ok (u, p')) : Marks b O W p p' ∧
      ∀ e ∈ b.method.handlers, b.Handled O i before after e p' := by
  unfold flowToHandlers at hf
  obtain ⟨_, _, hloop, hu⟩ := bind_eq_ok_iff.1 hf
  obtain ⟨-, rfl⟩ := pure_eq_ok_iff.1 hu
  refine StateT.forIn_spec (I := Sized b.insns.size) Marks.refl Marks.trans
    (fun hG hm => hG.mono hm.1) (fun e _ s r t hI hbody => ?_) hs hloop
  split at hbody
  · next hc =>
    obtain ⟨v, s₁, hcaught, hrest⟩ := bind_eq_ok_iff.1 hbody
    obtain ⟨rfl, hv⟩ := caught_eq_ok hcaught
    obtain ⟨c, rfl⟩ := MethodCode.exists_ref_of_caught? hv
    obtain ⟨_, s₂, hto, hrest⟩ := bind_eq_ok_iff.1 hrest
    obtain ⟨hm, hr⟩ := flowTo_marks hb hI (hW c).1 hto
    split at hrest
    · obtain ⟨_, s₃, hflow, hend⟩ := bind_eq_ok_iff.1 hrest
      obtain ⟨rfl, rfl⟩ := pure_eq_ok_iff.1 hend
      obtain ⟨hm', hr'⟩ := flow_marks hb (hm.1.sized hI) (hW c).2 hr hflow
      have hmarks := hm.trans hm'
      exact ⟨rfl, hmarks.1.sized hI, hmarks, fun _ => ⟨_, hv, hr.mono hm'.1, fun _ => hr'⟩⟩
    · next hstore =>
      obtain ⟨rfl, rfl⟩ := pure_eq_ok_iff.1 hrest
      exact ⟨rfl, hm.1.sized hI, hm, fun _ => ⟨_, hv, hr, fun hi => absurd hi hstore⟩⟩
  · next hc =>
    obtain ⟨rfl, rfl⟩ := pure_eq_ok_iff.1 hbody
    exact ⟨rfl, hI, .refl _, fun hcov => absurd hcov hc⟩

/-- Flows to all jumps of an instruction. -/
def flowToAll (b : Body) (i : Insn) (ts : List Int) (f : Frame) : Analyze Unit := do
  for t in ts do
    b.flowTo i t f

lemma flowToAll_marks (hb : b.Setting O W) (hs : p.Sized b.insns.size)
    (hW : W f) {ts : List Int} (hf : b.flowToAll i ts f p = .ok (u, p')) :
    Marks b O W p p' ∧ ∀ t ∈ ts, b.Reached O t f p' := by
  unfold flowToAll at hf
  obtain ⟨_, _, hloop, hu⟩ := bind_eq_ok_iff.1 hf
  obtain ⟨-, rfl⟩ := pure_eq_ok_iff.1 hu
  refine StateT.forIn_spec (I := Sized b.insns.size) Marks.refl Marks.trans
    (fun hG hm => hG.mono hm.1) (fun t _ s r s' hI hbody => ?_) hs hloop
  obtain ⟨_, s₁, hto, hbody⟩ := bind_eq_ok_iff.1 hbody
  obtain ⟨rfl, rfl⟩ := pure_eq_ok_iff.1 hbody
  obtain ⟨hm, hr⟩ := flowTo_marks hb hI hW hto
  exact ⟨rfl, hm.1.sized hI, hm, hr⟩

/-- An instruction sends its frame to its jumps and then to the instruction behind it, or marks
that. -/
lemma flowOn_eq (n : Nat) (i : Insn) (f : Frame) :
    b.flowOn n i f = (do
      b.flowToAll i i.jumps f
      if i.fallsThrough then b.fallThrough n i f else markNext n) := by
  unfold flowOn flowToAll Insn.jumps Insn.fallsThrough
  cases i.op.action? with
  | none => rfl
  | some a =>
    cases a <;>
      simp [Action.isBranch, Action.isConditional, Action.endsBlock, Action.isReturn]

end Body

/-! ### Merged frames are well formed -/

namespace Insn

variable {h : Hierarchy} {offsets offsets' : Nat → Prop} {f g r : Frame} {v : VType} {k : Hierarchy}

lemma madeAt_mono (ho : ∀ offset, offsets offset → offsets' offset) {x y : VType}
    (hxy : VType.MadeAt h offsets x y) : VType.MadeAt h offsets' x y :=
  ⟨hxy.1, fun offset hx => ho offset (hxy.2 offset hx)⟩

lemma Fitting.mono (hf : Fitting h offsets f g) (ho : ∀ offset, offsets offset → offsets' offset) :
    Fitting h offsets' f g :=
  ⟨⟨hf.stack.imp fun _ _ => madeAt_mono ho, fun n => madeAt_mono ho (hf.locals n)⟩, hf.paired⟩

lemma Fitting.passes (hf : Fitting h offsets f g) : f.Passes h g :=
  ⟨hf.stack.imp fun _ _ hxy => hxy.1.below, fun n => .inl (hf.locals n).1.below⟩

lemma Fitting.trans_alike (hf : Fitting h offsets f g) (hg : g.Alike h r) : Fitting h offsets f r :=
  ⟨⟨forall₂_comp (fun _ _ _ hxy hyz => ⟨hxy.1.trans hyz, hxy.2⟩) hf.stack hg.stack,
    fun n => ⟨(hf.locals n).1.trans (hg.locals n), (hf.locals n).2⟩⟩, hf.paired⟩

lemma madeAt_self (hv : ∀ offset, v = .uninit offset → offsets offset) :
    VType.MadeAt h offsets v v := ⟨.refl v, hv⟩

/-- Of two values that are merged in some hierarchy, what is no object was both. -/
lemma eq_of_merge {x y : VType} (hm : x.merge k y = .ok (some v)) (hv : ∀ c, v ≠ .ref c) :
    x = v ∧ y = v := by
  unfold VType.merge at hm
  split_ifs at hm with he
  · exact ⟨by simpa using hm, by simpa [he] using hm⟩
  · split at hm
    · exact absurd (by simpa using hm.symm) (hv _)
    · exact absurd (by simpa using hm.symm) (hv _)
    · obtain ⟨c, -, hm⟩ := Except.bind_eq_ok_iff.1 hm
      exact absurd (by simpa [pure, Except.pure] using hm.symm) (hv c)
    · simp at hm

lemma madeAt_of_merge {x y : VType} (hx : VType.MadeAt h offsets x x)
    (hm : x.merge k y = .ok (some v)) : VType.MadeAt h offsets v v := by
  refine madeAt_self fun offset hv => hx.2 offset ?_
  subst hv
  exact (eq_of_merge hm nofun).1

/-- Merged locals are paired if the second were. -/
lemma paired_mergeLocals {xs ys zs : List VType} (hy : Paired ys)
    (hm : mergeLocals k xs ys = .ok zs) : Paired zs := by
  intro n hn
  rcases slotType_mergeLocals hm n with ⟨ht, -⟩ | ⟨o, ho, hz⟩
  · simp [ht] at hn
  · rw [hz] at hn
    cases o with
    | none => cases hn
    | some v =>
      obtain ⟨-, hyv⟩ := eq_of_merge ho fun c hc => by subst hc; cases hn
      have hyn := hy n (hyv ▸ hn)
      rcases slotType_mergeLocals hm (n + 1) with ⟨ht, -⟩ | ⟨o', ho', hz'⟩
      · exact ht
      · rw [hz']
        exact VType.getD_of_merge_top (hyn ▸ ho')

lemma exists_merge_of_mem {source height : Nat} {xs ys zs : List VType}
    (hm : mergeStack k source height xs ys = .ok zs) (hv : v ∈ zs) :
    ∃ x ∈ xs, ∃ y, x.merge k y = .ok (some v) := by
  fun_induction mergeStack k source height xs ys generalizing zs with
  | case1 height x xs y ys ih =>
    obtain ⟨w, ws, rfl, hw, hws⟩ := mergeStack_eq_ok_iff.1 hm
    rcases List.mem_cons.1 hv with rfl | hv
    · exact ⟨x, List.mem_cons_self, y, hw⟩
    · obtain ⟨x', hx', hm'⟩ := ih hws hv
      exact ⟨x', List.mem_cons_of_mem _ hx', hm'⟩
  | case2 =>
    obtain rfl := Except.pure_eq_ok_iff.1 hm
    simp at hv

/-- In whatever hierarchy frames are merged, values are made where they were. -/
lemma Fitting.merge (hf : Fitting h offsets f f) (hg : Fitting h offsets g g)
    {source : Nat} (hm : f.merge k g source = .ok r) : Fitting h offsets r r := by
  obtain ⟨-, hs, hl⟩ := Frame.merge_eq_ok_iff.1 hm
  have hstack := hf.stack
  rw [List.forall₂_same] at hstack
  refine ⟨⟨?_, fun n => ?_⟩, paired_mergeLocals hg.paired hl⟩
  · refine List.forall₂_same.2 fun v hv => ?_
    obtain ⟨x, hx, y, hxy⟩ := exists_merge_of_mem hs hv
    exact madeAt_of_merge (hstack x hx) hxy
  · rcases slotType_mergeLocals hl n with ⟨ht, -⟩ | ⟨o, ho, hr⟩
    · rw [ht]
      exact madeAt_self nofun
    · rw [hr]
      cases o with
      | none => exact madeAt_self nofun
      | some v => exact madeAt_of_merge (hf.locals n) ho

end Insn

/-! ### Visits -/

namespace Body

open Progress Insn

variable {b : Body} {O : Frame.Order} {W : Frame → Prop} {p p' : Progress} {n : Nat} {i : Insn}
  {f g : Frame} {u : Unit} {start : Frame} {rest : List Nat} {fuel : Nat}

/-- All that an instruction sends on has arrived. -/
structure Settled (b : Body) (O : Frame.Order) (p : Progress) (n : Nat) (i : Insn)
    (before after : Frame) : Prop where
  transfer : i.transfer b.context before = .ok after
  handlers : ∀ e ∈ b.method.handlers, b.Handled O i before.locals after.locals e p
  jumps : ∀ t ∈ i.jumps, b.Reached O t after p
  next : i.fallsThrough → p.Covers O (n + 1) after
  ends : i.fallsThrough = false → n + 1 < b.insns.size → p.isTarget (n + 1)

lemma Settled.mono (hst : b.Settled O p n i f g) (hg : Growth b O W p p') :
    b.Settled O p' n i f g where
  transfer := hst.transfer
  handlers e he := (hst.handlers e he).mono hg
  jumps t ht := (hst.jumps t ht).mono hg
  next hi := (hst.next hi).mono hg
  ends hi hn := hg.targets (hst.ends hi hn)

/-- The order in which the frames of a body grow. -/
abbrev order (b : Body) : Frame.Order := .passing b.hierarchy

/-- The frame of an instruction has the shape of what the one before it leaves, at one time at
least. -/
def Entered (b : Body) (p : Progress) (n : Nat) (f : Frame) : Prop :=
  ∃ i before early late, b.insns[n]? = some i ∧ i.fallsThrough ∧ p.frameAt n = some before ∧
    early.Passes b.hierarchy before ∧ Paired early.locals ∧
      i.transfer b.context early = .ok late ∧ late.Alike b.hierarchy f

lemma Entered.mono (he : b.Entered p n f) (hg : Growth b b.order W p p') : b.Entered p' n f := by
  obtain ⟨i, before, early, late, hi, hfall, hbefore, hpass, hpair, htr, ha⟩ := he
  obtain ⟨before', hbefore', hpass'⟩ := hg.frames hbefore
  exact ⟨i, before', early, late, hi, hfall, hbefore', hpass.trans hpass', hpair, htr, ha⟩

/-- The offsets of instructions that were reached. -/
def Live (b : Body) (p : Progress) (offset : Nat) : Prop :=
  ∃ n f, b.number? offset = some n ∧ p.frameAt n = some f

lemma Live.mono {offset : Nat} (hl : b.Live p offset) (hg : Growth b O W p p') :
    b.Live p' offset := by
  obtain ⟨n, f, hn, hf⟩ := hl
  obtain ⟨g, hg, -⟩ := hg.frames hf
  exact ⟨n, g, hn, hg⟩

/-- What holds between visits, whatever is queued. -/
structure Sound (b : Body) (start : Frame) (p : Progress) : Prop where
  sized : p.Sized b.insns.size
  work : ∀ n, p.isQueued n → n ∈ p.work
  fitting : ∀ {n f}, p.frameAt n = some f → Fitting b.hierarchy (b.Live p) f f
  first : p.Covers b.order 0 start
  unmarked : p.isTarget 0 = false → p.frameAt 0 = some start
  entered : ∀ {n f}, p.isTarget (n + 1) = false → p.frameAt (n + 1) = some f → b.Entered p n f

/-- The frames within reach of a state. -/
def Within (b : Body) (p : Progress) (f : Frame) : Prop := Fitting b.hierarchy (b.Live p) f f

lemma setting_within (hh : b.hierarchy.Grounded) (hb : b.Indexed) :
    b.Setting b.order (b.Within p) :=
  ⟨hb, Frame.merge_upper hh, fun hf hg hm => Fitting.merge hf hg hm⟩

/-- Marking keeps what holds between visits. -/
lemma Sound.marks (hs : b.Sound start p) (hm : Marks b b.order (b.Within p) p p') :
    b.Sound start p' where
  sized := hm.1.sized hs.sized
  work := hm.1.work hs.work
  fitting hf := (hm.1.within hs.fitting hf).mono fun _ hl => hl.mono hm.1
  first := hs.first.mono hm.1
  unmarked ht := by rw [hm.2 0 ht, hs.unmarked (hm.1.not_target ht)]
  entered ht hf := (hs.entered (hm.1.not_target ht) (hm.2 _ ht ▸ hf)).mono hm.1

/-- Falling through keeps what holds between visits: as the frame of an instruction grows, what it
leaves keeps the shape of the next frame. -/
lemma fallThrough_sound {q : Progress} (hh : b.hierarchy.Grounded) (hb : b.Indexed)
    (hs : b.Sound start p) (hm : Marks b b.order (b.Within p) p q) (hi : b.insns[n]? = some i)
    (hfall : i.fallsThrough) (hf : p.frameAt n = some f) (htr : i.transfer b.context f = .ok g)
    (hrun : b.fallThrough n i g q = .ok (u, p')) :
    b.Sound start p' ∧ Growth b b.order (b.Within p) q p' ∧ p'.Covers b.order (n + 1) g := by
  have hsq := hs.marks hm
  have hW : b.Within p g :=
    transfer_self ⟨n, f, (hb _ _).2 ⟨i, hi, rfl⟩, hf⟩ (hs.fitting hf) htr
  obtain ⟨k, hfl⟩ := fallThrough_flowed (setting_within hh hb) hsq.sized hW hrun
  have hgrow := hm.1.trans hfl.growth
  obtain ⟨before, hbefore, hpass⟩ := hgrow.frames hf
  refine ⟨⟨hgrow.sized hs.sized, hgrow.work hs.work, fun h => ?_, hs.first.mono hgrow,
    fun ht => ?_, fun {m f'} ht hf' => ?_⟩, hfl.growth, k, hfl.frame,
    hfl.le (setting_within hh hb)⟩
  · exact (hgrow.within hs.fitting h).mono fun _ hl => hl.mono hgrow
  · rw [hfl.others 0 (by omega), hsq.unmarked (hfl.growth.not_target ht)]
  · by_cases hmn : m = n
    · subst hmn
      obtain rfl : k = f' := Option.some.inj (hfl.frame.symm.trans hf')
      refine ⟨i, before, f, g, hi, hfall, hbefore, hpass, (hs.fitting hf).paired, htr, ?_⟩
      -- The frame behind was merged from nothing, or from what this one left before.
      rcases hfl.merged with ⟨-, rfl⟩ | ⟨old, hold, hmerge⟩
      · exact .refl _
      · rw [hm.2 _ (hfl.growth.not_target ht)] at hold
        obtain ⟨i', f', early, late, hi', -, hf'', hearly, hpair, hlate, halike⟩ :=
          hs.entered (hgrow.not_target ht) hold
        obtain rfl : i = i' := Option.some.inj (hi.symm.trans hi')
        obtain rfl : f = f' := Option.some.inj (hf.symm.trans hf'')
        have hloose := transfer_loose hpair hearly (action_of_fallsThrough hfall) hlate htr
        exact halike.merge hh hloose hmerge
    · rw [hfl.others _ (by omega)] at hf'
      exact (hsq.entered (hfl.growth.not_target ht) hf').mono hfl.growth

/-- What is known of an instruction once it was looked at: all it sends on has arrived, unless it is
queued again. -/
def Done (b : Body) (O : Frame.Order) (p : Progress) (n : Nat) : Prop :=
  ∀ f, p.frameAt n = some f → p.isQueued n = false →
    ∃ i after, b.insns[n]? = some i ∧ b.Settled O p n i f after

lemma Done.mono (hd : b.Done O p n) (hg : Growth b O W p p') : b.Done O p' n := by
  intro f hf hq
  have hq' : p.isQueued n = false := by
    by_contra h
    rw [hg.queued (by simpa using h)] at hq
    cases hq
  rcases hg.changed n with he | hc
  · obtain ⟨i, after, hi, hst⟩ := hd f (he ▸ hf) hq'
    exact ⟨i, after, hi, hst.mono hg⟩
  · simp [hc] at hq

lemma fitting_handler {h : Hierarchy} {offsets : Nat → Prop} (hf : Fitting h offsets f f)
    (c : String) : Fitting h offsets ⟨f.locals, [.ref c]⟩ ⟨f.locals, [.ref c]⟩ :=
  ⟨⟨.cons ⟨.refl _, nofun⟩ .nil, hf.locals⟩, hf.paired⟩

/-- A visit is about nothing but the frame of its instruction, and sends on what comes out of it. -/
lemma visit_eq (hi : b.insns[n]? = some i) : b.visit n p =
    match p.frameAt n with
    | none => .ok ((), p)
    | some f =>
      match i.transfer b.context f with
      | .error e => failAt i.offset i.op e (p.note f.words)
      | .ok after =>
        (b.flowToHandlers i f.locals after.locals >>= fun _ => b.flowOn n i after)
          (p.noted f after i) := by
  simp only [visit, get_bind_apply, hi, frameAt]
  cases (p.frames[n]?).join with
  | none => rfl
  | some f =>
    dsimp only
    cases i.transfer b.context f <;> rfl

/-- The steps of a visit that finds an instruction and a frame. -/
lemma visit_eq_ok (hi : b.insns[n]? = some i) (hf : p.frameAt n = some f)
    (hrun : b.visit n p = .ok (u, p')) :
    ∃ after q₀ q₁ q₂, i.transfer b.context f = .ok after ∧ Marks b O W p q₀ ∧
      b.flowToHandlers i f.locals after.locals q₀ = .ok ((), q₁) ∧
      b.flowToAll i i.jumps after q₁ = .ok ((), q₂) ∧
      (if i.fallsThrough then b.fallThrough n i after else markNext n) q₂ = .ok (u, p') := by
  rw [visit_eq hi, hf] at hrun
  cases htr : i.transfer b.context f with
  | error e => simp [htr] at hrun
  | ok after =>
    simp only [htr] at hrun
    obtain ⟨_, q₁, hhandlers, hrun⟩ := bind_eq_ok_iff.1 hrun
    rw [flowOn_eq] at hrun
    obtain ⟨_, q₂, hjumps, hrun⟩ := bind_eq_ok_iff.1 hrun
    refine ⟨after, _, q₁, q₂, rfl, ?_, hhandlers, hjumps, hrun⟩
    exact ⟨.of_eq rfl rfl rfl rfl, fun _ _ => rfl⟩

/-- What follows an instruction that control does not fall through is marked. -/
lemma markNext_marks (hs : p.Sized b.insns.size) (hrun : markNext n p = .ok (u, p')) :
    Marks b O W p p' ∧ (n + 1 < b.insns.size → p'.isTarget (n + 1)) := by
  obtain rfl : p.setTarget (n + 1) = p' := StateT.modify_eq_ok_iff.1 hrun
  refine ⟨⟨.setTarget hs, fun _ _ => rfl⟩, fun hn => ?_⟩
  simp [isTarget_setTarget hs, hn]

/-- An instruction that has no frame is passed over. -/
lemma visit_of_frameAt_eq_none (hf : p.frameAt n = none) (hrun : b.visit n p = .ok (u, p')) :
    p' = p := by
  unfold visit at hrun
  replace hrun := StateT.get_bind_eq_ok_iff.1 hrun
  rw [frameAt] at hf
  simp only [hf] at hrun
  cases hi : b.insns[n]? <;>
  · rw [hi] at hrun
    exact (pure_eq_ok_iff.1 hrun).2.symm

/-- A visit settles the instruction, or it has still to go on to the one behind and then does. -/
lemma visit_marks (hb : b.Setting O W) (hs : p.Sized b.insns.size)
    (hW : ∀ {i f after}, b.insns[n]? = some i → p.frameAt n = some f →
    i.transfer b.context f = .ok after → W after ∧ ∀ c : String, W ⟨f.locals, [.ref c]⟩ ∧
    W ⟨after.locals, [.ref c]⟩) (hrun : b.visit n p = .ok (u, p')) :
    (Marks b O W p p' ∧ b.Done O p' n) ∨ ∃ i f after q, b.insns[n]? = some i ∧ i.fallsThrough ∧
    p.frameAt n = some f ∧ i.transfer b.context f = .ok after ∧ Marks b O W p q ∧
    b.fallThrough n i after q = .ok (u, p') ∧
    (Growth b O W q p' → p'.Covers O (n + 1) after → b.Done O p' n) := by
  cases hf : p.frameAt n with
  | none =>
    obtain rfl := visit_of_frameAt_eq_none hf hrun
    exact .inl ⟨.refl _, fun f hf' => by simp [hf] at hf'⟩
  | some f =>
    obtain ⟨i, hi⟩ : ∃ i, b.insns[n]? = some i :=
      ⟨_, Array.getElem?_eq_getElem (lt_of_frameAt hs hf)⟩
    obtain ⟨after, q₀, q₁, q₂, htr, hm₀, hhandlers, hjumps, hlast⟩ :=
      visit_eq_ok (O := O) (W := W) hi hf hrun
    obtain ⟨hWa, hWh⟩ := hW hi hf htr
    obtain ⟨hm₁, hhandled⟩ := flowToHandlers_marks hb (hm₀.1.sized hs) hWh hhandlers
    have hm₀₁ := hm₀.trans hm₁
    obtain ⟨hm₂, hreached⟩ := flowToAll_marks hb (hm₀₁.1.sized hs) hWa hjumps
    have hm := hm₀₁.trans hm₂
    have hdone (hgrow : Growth b O W q₂ p') (hnext : i.fallsThrough → p'.Covers O (n + 1) after)
        (hends : i.fallsThrough = false → n + 1 < b.insns.size → p'.isTarget (n + 1)) :
          b.Done O p' n := by
      intro f' hf' hq
      -- The instruction is settled unless its own frame has changed meanwhile.
      rcases (hm.1.trans hgrow).changed n with he | hc
      · obtain rfl : f = f' := Option.some.inj (hf.symm.trans (he ▸ hf'))
        exact ⟨i, after, hi, htr, fun e he => ((hhandled e he).mono hm₂.1).mono hgrow,
          fun t ht => (hreached t ht).mono hgrow, hnext, hends⟩
      · simp [hc] at hq
    cases hfall : i.fallsThrough with
    | true =>
      rw [hfall, if_pos rfl] at hlast
      exact .inr ⟨i, f, after, q₂, hi, hfall, rfl, htr, hm, hlast,
        fun hgrow hcov => hdone hgrow (fun _ => hcov) (by simp [hfall])⟩
    | false =>
      rw [hfall, if_neg (by simp)] at hlast
      obtain ⟨hm', htarget⟩ := markNext_marks (hm.1.sized hs) hlast
      exact .inl ⟨hm.trans hm', hdone hm'.1 (by simp [hfall]) fun _ => htarget⟩

/-- A visit keeps what holds between visits and settles the instruction. -/
lemma visit_sound (hh : b.hierarchy.Grounded) (hb : b.Indexed)
    (hs : b.Sound start p) (hrun : b.visit n p = .ok (u, p')) :
    b.Sound start p' ∧ Growth b b.order (b.Within p) p p' ∧ b.Done b.order p' n := by
  have hW {i : Insn} {f after : Frame} (hi : b.insns[n]? = some i) (hf : p.frameAt n = some f)
      (htr : i.transfer b.context f = .ok after) : b.Within p after :=
    transfer_self ⟨n, f, (hb _ _).2 ⟨i, hi, rfl⟩, hf⟩ (hs.fitting hf) htr
  obtain ⟨hm, hdone⟩ | ⟨i, f, after, q, hi, hfall, hf, htr, hm, hlast, hdone⟩ :=
    visit_marks (setting_within hh hb) hs.sized (fun hi hf htr => ⟨hW hi hf htr,
      fun c => ⟨fitting_handler (hs.fitting hf) c, fitting_handler (hW hi hf htr) c⟩⟩) hrun
  · exact ⟨hs.marks hm, hm.1, hdone⟩
  · obtain ⟨hs', hgrow, hcov⟩ := fallThrough_sound hh hb hs hm hi hfall hf htr hlast
    exact ⟨hs', hm.1.trans hgrow, hdone hgrow hcov⟩

/-- Without regard to how frames grow, a visit settles the instruction all the same. -/
lemma visit_done (hb : b.Indexed) (hs : p.Sized b.insns.size) (hrun : b.visit n p = .ok (u, p')) :
    Growth b .anyhow (fun _ => True) p p' ∧ b.Done .anyhow p' n := by
  have hset : b.Setting .anyhow (fun _ => True) :=
    ⟨hb, fun _ => ⟨trivial, trivial⟩, fun _ _ _ => trivial⟩
  obtain ⟨hm, hdone⟩ | ⟨i, f, after, q, -, -, -, -, hm, hlast, hdone⟩ :=
    visit_marks hset hs (fun _ _ _ => ⟨trivial, fun _ => ⟨trivial, trivial⟩⟩) hrun
  · exact ⟨hm.1, hdone⟩
  · obtain ⟨g, hfl⟩ := fallThrough_flowed hset (hm.1.sized hs) trivial hlast
    exact ⟨hm.1.trans hfl.growth, hdone hfl.growth ⟨g, hfl.frame, trivial⟩⟩

/-- An instruction is taken off the list. -/
def dequeue (p : Progress) (n : Nat) (rest : List Nat) : Progress :=
  { p with work := rest, queued := p.queued.setIfInBounds n false }

lemma isQueued_dequeue (hs : p.Sized b.insns.size) {m : Nat} :
    (dequeue p n rest).isQueued m = if m = n ∧ n < b.insns.size then false else p.isQueued m := by
  simp only [isQueued, dequeue, getD_setIfInBounds, hs.queued]
  grind

lemma sized_dequeue (hs : p.Sized b.insns.size) : (dequeue p n rest).Sized b.insns.size :=
  ⟨hs.frames, by simp [Body.dequeue, hs.queued], hs.targets⟩

lemma mem_work_dequeue (hs : p.Sized b.insns.size) (hall : ∀ m, p.isQueued m → m ∈ p.work)
    (hw : p.work = n :: rest) (m : Nat) (hq : (dequeue p n rest).isQueued m) : m ∈ rest := by
  rw [isQueued_dequeue hs] at hq
  split_ifs at hq with hm
  have hmem := hall m hq
  rw [hw] at hmem
  rcases List.mem_cons.1 hmem with rfl | hmem
  · have hlt : m < b.insns.size := by
      by_contra hge
      have hnone : p.queued[m]? = none := Array.getElem?_eq_none (by have := hs.queued; omega)
      simp [isQueued, Array.getD_eq_getD_getElem?, hnone] at hq
    exact absurd ⟨rfl, hlt⟩ hm
  · exact hmem

lemma Sound.dequeue (hs : b.Sound start p) (hw : p.work = n :: rest) :
    b.Sound start (dequeue p n rest) :=
  { hs with
    sized := sized_dequeue hs.sized
    work := mem_work_dequeue hs.sized hs.work hw }

lemma Done.dequeue {m : Nat} (hs : p.Sized b.insns.size) (hd : b.Done O p m)
    (hm : m ≠ n) : b.Done O (dequeue p n rest) m := by
  intro f hf hq
  rw [isQueued_dequeue hs, if_neg (by simp [hm])] at hq
  obtain ⟨i, after, hi, hst⟩ := hd f hf hq
  exact ⟨i, after, hi, hst.transfer, hst.handlers, hst.jumps, hst.next, hst.ends⟩

lemma settle_of_work_eq_nil (hw : p.work = []) (fuel : Nat) : b.settle fuel p = .ok ((), p) := by
  cases fuel with
  | zero | succ fuel =>
    rw [settle, get_bind_apply, hw]
    rfl

lemma settle_of_work_eq_cons (hw : p.work = n :: rest) (fuel : Nat) :
    b.settle (fuel + 1) p = (b.visit n >>= fun _ => b.settle fuel) (dequeue p n rest) := by
  rw [settle, get_bind_apply, hw]
  rfl

/-- The loop has ended, or it goes on after a visit. -/
lemma settle_eq_ok (hrun : b.settle fuel p = .ok (u, p')) :
    (p.work = [] ∧ p' = p) ∨ ∃ n rest fuel' q, fuel = fuel' + 1 ∧ p.work = n :: rest ∧
      b.visit n (dequeue p n rest) = .ok ((), q) ∧ b.settle fuel' q = .ok (u, p') := by
  cases hw : p.work with
  | nil =>
    rw [settle_of_work_eq_nil hw] at hrun
    exact .inl ⟨rfl, (Prod.mk.inj (Except.ok.inj hrun)).2.symm⟩
  | cons n rest =>
    cases fuel with
    | zero =>
      rw [settle, get_bind_apply, hw] at hrun
      exact absurd hrun StateT.throw_ne_ok
    | succ fuel =>
      rw [settle_of_work_eq_cons hw] at hrun
      obtain ⟨_, q, hv, hrun⟩ := bind_eq_ok_iff.1 hrun
      exact .inr ⟨n, rest, fuel, q, rfl, rfl, hv, hrun⟩

/-- What visits keep holds when nothing is left to look at, and every instruction is done. -/
lemma settle_spec {I : Progress → Prop} (hsized : ∀ {p}, I p → p.Sized b.insns.size)
    (hdequeue : ∀ {p n rest}, I p → p.work = n :: rest → I (dequeue p n rest))
    (hvisit : ∀ {p n p'}, I p → b.visit n p = .ok (u, p') → I p' ∧ (∃ W, Growth b O W p p') ∧
    b.Done O p' n) (hs : I p) (hd : ∀ n, b.Done O p n) (hrun : b.settle fuel p = .ok (u, p')) :
    I p' ∧ (∀ n, b.Done O p' n) ∧ p'.work = [] := by
  induction fuel using Nat.strong_induction_on generalizing p with
  | h fuel ih =>
    obtain ⟨hw, rfl⟩ | ⟨n, rest, fuel, q, rfl, hw, hv, hrun⟩ := settle_eq_ok hrun
    · exact ⟨hs, hd, hw⟩
    · obtain ⟨hs', ⟨W, hgrow⟩, hdone⟩ := hvisit (hdequeue hs hw) hv
      refine ih fuel (Nat.lt_succ_self _) hs' (fun m => ?_) hrun
      by_cases hm : m = n
      · exact hm ▸ hdone
      · exact ((hd m).dequeue (hsized hs) hm).mono hgrow

lemma settle_sound (hh : b.hierarchy.Grounded) (hb : b.Indexed)
    (hs : b.Sound start p) (hd : ∀ n, b.Done b.order p n) (hrun : b.settle fuel p = .ok (u, p')) :
    b.Sound start p' ∧ (∀ n, b.Done b.order p' n) ∧ p'.work = [] :=
  settle_spec (I := b.Sound start) (fun hs => hs.sized) (fun hs hw => hs.dequeue hw)
    (fun hs hv =>
      have ⟨hs', hgrow, hdone⟩ := visit_sound hh hb hs hv
      ⟨hs', ⟨_, hgrow⟩, hdone⟩) hs hd hrun

/-- What is true of the lists alone, whatever the frames are. -/
structure Listed (b : Body) (p : Progress) : Prop where
  sized : p.Sized b.insns.size
  work : ∀ n, p.isQueued n → n ∈ p.work
  first : ∃ f, p.frameAt 0 = some f

lemma Listed.growth (hs : b.Listed p) (hg : Growth b O W p p') : b.Listed p' where
  sized := hg.sized hs.sized
  work := hg.work hs.work
  first := by
    obtain ⟨f, hf⟩ := hs.first
    obtain ⟨g, hg, -⟩ := hg.frames hf
    exact ⟨g, hg⟩

lemma settle_done (hb : b.Indexed) (hs : b.Listed p) (hd : ∀ n, b.Done .anyhow p n)
    (hrun : b.settle fuel p = .ok (u, p')) :
    b.Listed p' ∧ (∀ n, b.Done .anyhow p' n) ∧ p'.work = [] :=
  settle_spec (I := b.Listed) (fun hs => hs.sized)
    (fun hs hw => ⟨sized_dequeue hs.sized, mem_work_dequeue hs.sized hs.work hw, hs.first⟩)
    (fun hs hv =>
      have ⟨hgrow, hdone⟩ := visit_done hb hs.sized hv
      ⟨hs.growth hgrow, ⟨_, hgrow⟩, hdone⟩) hs hd hrun

end Body

end Classwright
