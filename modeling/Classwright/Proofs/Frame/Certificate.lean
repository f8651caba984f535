import Classwright.Proofs.Frame.Settled
import Classwright.Proofs.Frame.Subclasses

/-!
Analyses as certificates.

`Analysis.Certified` is what a checker finds that reads the result of an analysis only, and its code
once from start to end. `MethodCode.analyze_certified` is that every analysis passes it.
-/

namespace Classwright

/-! ### The checker -/

/-- The frame that an entry of a map stands for. -/
def MapFrame.frame (r : MapFrame) : Frame := ⟨expand r.locals, r.stack.reverse⟩

namespace Analysis

def frameAt? (a : Analysis) (offset : Int) : Option Frame :=
  (a.frames.find? fun r => (r.offset : Int) == offset).map MapFrame.frame

/-- What instructions depend on, with the code of the analysis. -/
def context (a : Analysis) (m : MethodCode) (ret : String) (insns : List Insn) : CodeContext :=
  ⟨{ m with code := a.code, handlers := a.handlers }, ret, fun offset =>
    insns.find? (·.offset == offset)⟩

/-- A frame may go to an offset: one is written down there that it passes for. -/
def Admits (a : Analysis) (h : Hierarchy) (offset : Int) (f : Frame) : Prop :=
  ∃ g, a.frameAt? offset = some g ∧ f.Passes h g

/-- An instruction type-checks, its handlers admit the locals before it, and its jumps admit the
frame after it. -/
structure Checks (a : Analysis) (h : Hierarchy) (c : CodeContext) (i : Insn)
    (before after : Frame) : Prop where
  transfer : i.transfer c before = .ok after
  handlers : ∀ e ∈ a.handlers, e.covers i.offset → ∃ v, c.method.caught? e.catchType = some v ∧
    a.Admits h e.handler.toNat ⟨before.locals, [v]⟩
  jumps : ∀ t ∈ i.jumps, a.Admits h t after

/-- One walk over instructions, with the frame that control falls in with, if it does. A frame that
is written down takes its place; without one, there must be one to fall in with. -/
inductive Walks (a : Analysis) (h : Hierarchy) (c : CodeContext) : Option Frame → List Insn → Prop
  | nil : Walks a h c none []
  | written {fallen : Option Frame} {i : Insn} {is : List Insn} {before after : Frame}
      (hg : a.frameAt? i.offset = some before) (hfallen : ∀ f ∈ fallen, f.Passes h before)
      (hi : a.Checks h c i before after)
      (rest : Walks a h c (if i.fallsThrough then some after else none) is) :
      Walks a h c fallen (i :: is)
  | fallen {i : Insn} {is : List Insn} {before after : Frame} (hg : a.frameAt? i.offset = none)
      (hi : a.Checks h c i before after)
      (rest : Walks a h c (if i.fallsThrough then some after else none) is) :
      Walks a h c (some before) (i :: is)

/-- What a checker finds that reads the code of an analysis once. -/
structure Certified (a : Analysis) (m : MethodCode) (h : Hierarchy) (ret : String)
    (insns : List Insn) : Prop where
  decoded : Insn.decodeAll a.code = .ok insns
  ascending : a.frames.Pairwise fun r s => r.offset < s.offset
  starts : ∀ r ∈ a.frames, ∃ i ∈ insns, i.offset = r.offset
  jumps : ∀ i ∈ insns, ∀ t ∈ i.jumps, (a.frameAt? t).isSome
  handlers : ∀ e ∈ a.handlers, (a.frameAt? e.handler.toNat).isSome
  ends : ∀ front i j back, insns = front ++ i :: j :: back → i.fallsThrough = false →
    (a.frameAt? j.offset).isSome
  walk : a.Walks h (a.context m ret insns) (some ⟨expand a.initial, []⟩) insns

variable {a : Analysis} {h : Hierarchy} {c : CodeContext} {fallen : Option Frame}
  {insns : List Insn}

lemma Walks.jumps (hw : a.Walks h c fallen insns) {i : Insn} (hi : i ∈ insns) {t : Int}
    (ht : t ∈ i.jumps) : (a.frameAt? t).isSome := by
  induction hw with
  | nil => simp at hi
  | written _ _ hc _ ih | fallen _ hc _ ih =>
    rcases List.mem_cons.1 hi with rfl | hi
    · obtain ⟨g, hg, -⟩ := hc.jumps t ht
      simp [hg]
    · exact ih hi

/-- A walk finds a frame where control does not fall in. -/
lemma Walks.ends {front back : List Insn} {i j : Insn}
    (hw : a.Walks h c fallen (front ++ i :: j :: back)) (hi : i.fallsThrough = false) :
    (a.frameAt? j.offset).isSome := by
  have hnone {is : List Insn} (hw : a.Walks h c none (j :: is)) : (a.frameAt? j.offset).isSome := by
    cases hw with
    | written hg _ _ _ => simp [hg]
  induction front generalizing fallen with
  | nil =>
    cases hw with
    | written _ _ _ rest | fallen _ _ rest => exact hnone (by simpa [hi] using rest)
  | cons k front ih =>
    cases hw with
    | written _ _ _ rest => exact ih rest
    | fallen _ _ rest => exact ih rest

end Analysis

/-! ### What is written down -/

namespace Body

open Progress Insn

variable {b : Body} {locals : List VType} {p : Progress} {n : Nat} {i : Insn} {f : Frame} {t : Int}
  {out : Frame}

lemma frames_analysis : (b.analysis locals p).frames =
    (List.range b.insns.size).filterMap (b.recorded p) := mapFrames_eq

/-- Entries of a map are those of instructions. -/
lemma mem_frames {r : MapFrame} (hr : r ∈ (b.analysis locals p).frames) :
    ∃ n i, b.insns[n]? = some i ∧ b.recorded p n = some r ∧ r.offset = i.offset := by
  rw [frames_analysis] at hr
  obtain ⟨n, hn, hr⟩ := List.mem_filterMap.1 hr
  obtain ⟨i, hi⟩ : ∃ i, b.insns[n]? = some i :=
    ⟨_, Array.getElem?_eq_getElem (by simpa using hn)⟩
  exact ⟨n, i, hi, hr, offset_recorded hi hr⟩

lemma Final.frameAt? (hb : b.Final locals p) (hi : b.insns[n]? = some i) :
    (b.analysis locals p).frameAt? i.offset = (b.recorded p n).map MapFrame.frame := by
  unfold Analysis.frameAt?
  congr 1
  have hsame {r : MapFrame} (hmem : r ∈ (b.analysis locals p).frames)
      (he : ((r.offset : Int) == i.offset) = true) : b.recorded p n = some r := by
    obtain ⟨m, j, hj, hrm, hoff⟩ := mem_frames hmem
    rwa [hb.eq_of_offset hi hj (by simp at he; omega)]
  cases hr : b.recorded p n with
  | none =>
    rw [List.find?_eq_none]
    intro r hmem he
    simp [hsame hmem he] at hr
  | some r =>
    have hmem : r ∈ (b.analysis locals p).frames := by
      rw [frames_analysis]
      exact List.mem_filterMap.2 ⟨n, by simpa using (Array.getElem?_eq_some_iff.1 hi).1, hr⟩
    cases hfind : (b.analysis locals p).frames.find? fun r => (r.offset : Int) == i.offset with
    | none =>
      rw [List.find?_eq_none] at hfind
      exact absurd (by simp [offset_recorded hi hr]) (hfind r hmem)
    | some r' =>
      have he := List.find?_some hfind
      rw [← hsame (List.mem_of_find?_eq_some hfind) he, hr]

lemma frameAt?_eq_none (ht : ∀ (n : Nat) (i : Insn), b.insns[n]? = some i → (i.offset : Int) ≠ t) :
    (b.analysis locals p).frameAt? t = none := by
  unfold Analysis.frameAt?
  rw [Option.map_eq_none_iff, List.find?_eq_none]
  intro r hmem he
  obtain ⟨n, i, hi, -, hoff⟩ := mem_frames hmem
  exact ht n i hi (by simp at he; omega)

/-- The frame that is written down for a target says what the target's does. -/
lemma Final.written (hb : b.Final locals p) (hn : b.number? t = some n) (hf : p.frameAt n = some f)
    (ht : p.isTarget n) : ∃ g, (b.analysis locals p).frameAt? t = some g ∧
    Fitting b.hierarchy (b.Live p) g f ∧ f.Passes b.hierarchy g := by
  obtain ⟨i, hi, rfl⟩ := (hb.indexed _ _).1 hn
  have hfit := hb.sound.fitting hf
  have hr : b.recorded p n = some ⟨i.offset, compress f.locals, f.stack.reverse⟩ := by
    simp [recorded, hi, hf, ht]
  refine ⟨⟨expand (compress f.locals), f.stack⟩, ?_, ⟨⟨hfit.stack, fun m => ?_⟩, fun m => ?_⟩,
    (Frame.Passes.refl f).stack, fun m => ?_⟩
  · simp [hb.frameAt? hi, hr, MapFrame.frame]
  · rw [slotType_expand_compress hfit.paired]
    exact hfit.locals m
  · rw [slotType_expand_compress hfit.paired, slotType_expand_compress hfit.paired]
    exact hfit.paired m
  · rw [slotType_expand_compress hfit.paired]
    exact .refl _

/-- What has arrived at a target is admitted by what is written down there. -/
lemma Final.admits (hb : b.Final locals p) {g : Frame} (hr : b.Reached b.order t f p)
    (hg : g.Passes b.hierarchy f) : (b.analysis locals p).Admits b.hierarchy t g := by
  obtain ⟨n, hn, ht, k, hk, hfk⟩ := hr
  obtain ⟨w, hw, -, hkw⟩ := hb.written hn hk ht
  exact ⟨w, hw, hg.trans (hfk.trans hkw)⟩

/-! ### One walk over the code -/

abbrev after (b : Body) (locals : List VType) (p : Progress) : CodeContext :=
  (b.analysis locals p).context b.method b.ret (rewritten (b.traced p))

/-- Instructions that were reached are found in the rewritten code as before. -/
lemma Final.at_live (hb : b.Final locals p) {offset : Nat} (hl : b.Live p offset) :
    (b.after locals p).at? offset = b.context.at? offset := by
  obtain ⟨n, f, hn, hf⟩ := hl
  obtain ⟨i, hi, he⟩ := (hb.indexed _ _).1 hn
  have hmem : i ∈ rewritten (b.traced p) := by
    refine mem_rewritten (n := n) (f := f) (List.mem_of_getElem? (i := n) ?_)
    simp [getElem?_traced, hi, hf]
  have hfind : (rewritten (b.traced p)).find? (·.offset == offset) = some i := by
    obtain rfl : i.offset = offset := by omega
    have hd : Insn.Decodes 0 (b.analysis locals p).code _ := hb.decodes_rewritten
    exact hd.find?_offset hmem
  simp only [Analysis.context, context, hfind, hn, Option.bind_some, hi]

/-- An instruction that was reached checks from a frame of the shape it was reached with. -/
lemma Final.checks_live (hb : b.Final locals p) (hlen : b.method.code.length ≤ 65535)
    {before : Frame} (hi : b.insns[n]? = some i) (hst : b.Settled b.order p n i f out)
    (hf : p.frameAt n = some f) (hfit : Fitting b.hierarchy (b.Live p) before f) :
    ∃ out', (b.analysis locals p).Checks b.hierarchy (b.after locals p) i before out' ∧
      Fitting b.hierarchy (b.Live p) out' out := by
  have hlive : b.Live p i.offset := ⟨n, f, (hb.indexed _ _).2 ⟨i, hi, rfl⟩, hf⟩
  obtain ⟨out', htr, hout⟩ := transfer_fitting (fun _ hl => hb.at_live hl) hlive hfit
    hst.transfer
  refine ⟨out', ⟨htr, fun e he hc => ?_, fun t ht => ?_⟩, hout⟩
  · obtain ⟨e', he', hh, hct, hcov, -⟩ := hb.handler hlen he
    have hpos := hb.decodes.len_pos_of_mem (List.mem_of_getElem? (by simpa using hi))
    obtain ⟨hc', -⟩ := hcov hi i.offset le_rfl (by simp only [Insn.next]; omega) hc
    obtain ⟨v, hv, hr, -⟩ := hst.handlers e' he' hc'
    refine ⟨v, hct ▸ hv, ?_⟩
    rw [hh]
    exact hb.admits hr ⟨.cons (.refl v) .nil, (Fitting.passes hfit).locals⟩
  · exact hb.admits (hst.jumps t ht) (Fitting.passes hout)

/-- The frame of code that no path reaches. -/
def deadFrame : Frame := ⟨[], [.ref throwableClass]⟩

lemma transfer_idle (c : CodeContext) (throws : Bool) (offset : Nat) :
    (idle throws offset).transfer c deadFrame = .ok (if throws then ⟨[], []⟩ else deadFrame) := by
  unfold transfer effect
  rw [action_idle]
  cases throws <;> rfl

lemma jumps_idle (throws : Bool) (offset : Nat) : (idle throws offset).jumps = [] := by
  unfold jumps
  rw [action_idle]
  cases throws <;> rfl

lemma fallsThrough_idle (throws : Bool) (offset : Nat) :
    (idle throws offset).fallsThrough = !throws := by
  unfold fallsThrough
  rw [action_idle]
  cases throws <;> rfl

section

variable {a : Analysis} {h : Hierarchy} {c : CodeContext} {fallen : Option Frame} {is : List Insn}
  {offset : Nat}

/-- An idle instruction checks where no range covers it. -/
lemma walks_idle {throws : Bool} (hfirst : a.frameAt? offset = some deadFrame ∧ fallen = none ∨
      a.frameAt? offset = none ∧
      fallen = some deadFrame) (hcover : ∀ e ∈ a.handlers, e.covers offset = false)
    (hrest : a.Walks h c (if throws then none else some deadFrame) is) :
    a.Walks h c fallen (idle throws offset :: is) := by
  have hchecks : a.Checks h c (idle throws offset) deadFrame
      (if throws then ⟨[], []⟩ else deadFrame) :=
    ⟨transfer_idle c throws offset,
      fun e he hc => absurd hc (by simp [idle, hcover e he]),
      fun t ht => by simp [jumps_idle] at ht⟩
  have hrest : a.Walks h c (if (idle throws offset).fallsThrough then
      some (if throws then ⟨[], []⟩ else deadFrame) else none) is := by
    rw [fallsThrough_idle]
    cases throws <;> exact hrest
  rcases hfirst with ⟨hg, rfl⟩ | ⟨hg, rfl⟩
  · exact .written hg (by simp) hchecks hrest
  · exact .fallen hg hchecks hrest

/-- A run of idle instructions checks, and the last of a run ends it. -/
lemma walks_idleRun {last : Bool} {len : Nat} (hfirst : a.frameAt? offset = some deadFrame ∧
    fallen = none ∨ a.frameAt? offset = none ∧ fallen = some deadFrame)
    (hinner : ∀ k : Nat, offset < k → k < offset + len → a.frameAt? k = none)
    (hcover : ∀ e ∈ a.handlers, ∀ k, offset ≤ k → k < offset + len → e.covers k = false)
    (hlen : 0 < len) (hrest : a.Walks h c (if last then none else some deadFrame) is) :
    a.Walks h c fallen (idleRun last offset len ++ is) := by
  induction len generalizing offset fallen with
  | zero => simp at hlen
  | succ len ih =>
    have hhere (e : ExceptionEntry) (he : e ∈ a.handlers) : e.covers offset = false :=
      hcover e he offset le_rfl (by omega)
    cases len with
    | zero => exact walks_idle hfirst hhere hrest
    | succ len =>
      refine walks_idle hfirst hhere ?_
      exact ih (.inr ⟨hinner _ (by omega) (by omega), rfl⟩)
        (fun k hk hk' => hinner k (by omega) (by omega))
        (fun e he k hk hk' => hcover e he k (by omega) (by omega)) (by omega)

end

/-- What a walk has found before an instruction. -/
def Ready (b : Body) (p : Progress) (n : Nat) (fallen : Option Frame) : Prop :=
  match p.frameAt n with
  | some f => (∀ w ∈ fallen, w.Passes b.hierarchy f) ∧
      (p.isTarget n = false → ∃ w, fallen = some w ∧ Fitting b.hierarchy (b.Live p) w f)
  | none => fallen = if n < b.insns.size ∧ liveBefore p n = false then some deadFrame else none

variable {k : Nat} {fallen : Option Frame}

lemma ready_live (hf : p.frameAt k = some f) :
    b.Ready p k fallen ↔ (∀ w ∈ fallen, w.Passes b.hierarchy f) ∧
    (p.isTarget k = false → ∃ w, fallen = some w ∧ Fitting b.hierarchy (b.Live p) w f) := by
  simp [Ready, hf]

lemma ready_dead (hf : p.frameAt k = none) : b.Ready p k fallen ↔
      fallen = if k < b.insns.size ∧ liveBefore p k = false then some deadFrame else none := by
  simp [Ready, hf]

/-- What the frame of an instruction leaves has the shape of the next frame, where that is not
written down. -/
lemma Final.alike_next (hb : b.Final locals p) {next : Frame} (hi : b.insns[k]? = some i)
    (hf : p.frameAt k = some f) (hst : b.Settled b.order p k i f out)
    (hnext : p.frameAt (k + 1) = some next) (hpass : out.Passes b.hierarchy next)
    (ht : p.isTarget (k + 1) = false) : out.Alike b.hierarchy next := by
  obtain ⟨i', f', early, late, hi', hfall, hf', hearly, hpair, hlate, halike⟩ :=
    hb.sound.entered ht hnext
  obtain rfl : i = i' := Option.some.inj (hi.symm.trans hi')
  obtain rfl : f = f' := Option.some.inj (hf.symm.trans hf')
  have hloose := transfer_loose hpair hearly (action_of_fallsThrough hfall) hlate hst.transfer
  exact halike.squeeze hloose hpass

/-- A walk is ready for what follows an instruction that was reached. -/
lemma Final.ready_after_live (hb : b.Final locals p) {out' : Frame} (hi : b.insns[k]? = some i)
    (hf : p.frameAt k = some f) (hst : b.Settled b.order p k i f out)
    (hout : Fitting b.hierarchy (b.Live p) out' out) :
    b.Ready p (k + 1) (if i.fallsThrough then some out' else none) := by
  cases hfall : i.fallsThrough with
  | true =>
    obtain ⟨next, hnext, hpass⟩ := hst.next hfall
    rw [if_pos rfl, ready_live hnext]
    refine ⟨?_, fun ht => ⟨out', rfl, ?_⟩⟩
    · rintro _ ⟨⟩
      exact (Fitting.passes hout).trans hpass
    · exact hout.trans_alike (hb.alike_next hi hf hst hnext hpass ht)
  | false =>
    rw [if_neg (by simp)]
    cases hnext : p.frameAt (k + 1) with
    | some next =>
      rw [ready_live hnext]
      have ht := hst.ends hfall (lt_of_frameAt hb.sound.sized hnext)
      exact ⟨by simp, by simp [ht]⟩
    | none =>
      rw [ready_dead hnext]
      simp [liveBefore, hf]

/-- A walk is ready for what follows an instruction that was not reached. -/
lemma Final.ready_after_dead (hb : b.Final locals p) (hf : p.frameAt k = none) : b.Ready p (k + 1)
      (if endsRun ((b.traced p).drop (k + 1)) then none else some deadFrame) := by
  cases hi : b.insns[k + 1]? with
  | none =>
    have hge : b.insns.size ≤ k + 1 := by simpa using hi
    have hnone : p.frameAt (k + 1) = none := by
      by_contra hne
      obtain ⟨f, hf⟩ := Option.ne_none_iff_exists'.1 hne
      exact absurd (lt_of_frameAt hb.sound.sized hf) (by omega)
    rw [drop_traced_eq_nil hge, ready_dead hnone]
    simp [endsRun, Nat.not_lt.2 hge]
  | some i =>
    have hlt : k + 1 < b.insns.size := (Array.getElem?_eq_some_iff.1 hi).1
    rw [drop_traced hi]
    cases hnext : p.frameAt (k + 1) with
    | none =>
      rw [ready_dead hnext]
      simp [endsRun, hlt, liveBefore, hf]
    | some next =>
      rw [ready_live hnext]
      refine ⟨by simp [endsRun], fun ht => ?_⟩
      obtain ⟨_, _, _, _, _, _, hf', _⟩ := hb.sound.entered ht hnext
      simp [hf] at hf'

lemma Final.walks_drop (hb : b.Final locals p) (hlen : b.method.code.length ≤ 65535)
    (hk : k ≤ b.insns.size) (hr : b.Ready p k fallen) :
    (b.analysis locals p).Walks b.hierarchy (b.after locals p) fallen
    (rewritten ((b.traced p).drop k)) := by
  induction hm : b.insns.size - k generalizing k fallen with
  | zero =>
    have hnone : p.frameAt k = none := by
      by_contra hne
      obtain ⟨f, hf⟩ := Option.ne_none_iff_exists'.1 hne
      exact absurd (lt_of_frameAt hb.sound.sized hf) (by omega)
    rw [ready_dead hnone, if_neg (by omega)] at hr
    rw [hr, drop_traced_eq_nil (by omega)]
    exact .nil
  | succ m ih =>
    have hlt : k < b.insns.size := by omega
    obtain ⟨i, hi⟩ : ∃ i, b.insns[k]? = some i := ⟨_, Array.getElem?_eq_getElem hlt⟩
    rw [drop_traced hi]
    cases hf : p.frameAt k with
    | some f =>
      rw [ready_live hf] at hr
      obtain ⟨i', out, hi', hst⟩ := hb.settled hf
      obtain rfl : i = i' := Option.some.inj (hi.symm.trans hi')
      have hrest {out' : Frame} (hout : Fitting b.hierarchy (b.Live p) out' out) :=
        ih (by omega) (hb.ready_after_live hi hf hst hout) (by omega)
      cases ht : p.isTarget k with
      | true =>
        obtain ⟨g, hg, hfit, hfg⟩ := hb.written ((hb.indexed _ _).2 ⟨i, hi, rfl⟩) hf ht
        obtain ⟨out', hchecks, hout⟩ := hb.checks_live hlen hi hst hf hfit
        exact .written hg (fun w hw => (hr.1 w hw).trans hfg) hchecks (hrest hout)
      | false =>
        obtain ⟨w, rfl, hfit⟩ := hr.2 ht
        obtain ⟨out', hchecks, hout⟩ := hb.checks_live hlen hi hst hf hfit
        refine .fallen ?_ hchecks (hrest hout)
        simp [hb.frameAt? hi, recorded, hi, hf, ht]
    | none =>
      have hmem : i ∈ b.insns.toList := List.mem_of_getElem? (by simpa using hi)
      have hpos := hb.decodes.len_pos_of_mem hmem
      rw [ready_dead hf] at hr
      refine walks_idleRun ?_ (fun k' hk' hk'' => ?_) (fun e he k' hk' hk'' => ?_) hpos
        (ih (by omega) (hb.ready_after_dead hf) (by omega))
      · rw [hb.frameAt? hi, hr]
        cases hl : liveBefore p k <;>
          simp [recorded, hf, hl, hlt, MapFrame.frame, expand, deadFrame]
      · refine frameAt?_eq_none fun n j hj he => ?_
        have hj' := hb.decodes.len_pos_of_mem (List.mem_of_getElem? (by simpa using hj))
        obtain rfl : j.offset = k' := by omega
        obtain rfl := hb.eq_of_overlap hi hj hk'.le hk'' le_rfl (by simp only [next]; omega)
        obtain rfl : i = j := Option.some.inj (hi.symm.trans hj)
        omega
      · by_contra hc
        obtain ⟨e', -, -, -, hcov, -⟩ := hb.handler hlen he
        obtain ⟨-, f, hf'⟩ := hcov hi k' hk' hk'' (by simpa using hc)
        simp [hf] at hf'

/-- A walk may start with the first locals. -/
lemma Final.ready_start (hb : b.Final locals p) :
    b.Ready p 0 (some ⟨expand (b.analysis locals p).initial, []⟩) := by
  obtain ⟨f, hf, hpass⟩ := hb.sound.first
  have hslot (n : Nat) : slotType (expand (b.analysis locals p).initial) n = slotType locals n :=
    slotType_expand_compress hb.paired n
  rw [ready_live hf]
  refine ⟨?_, fun ht => ⟨_, rfl, ?_⟩⟩
  · rintro _ ⟨⟩
    exact ⟨hpass.stack, fun n => hslot n ▸ hpass.locals n⟩
  · obtain rfl : f = ⟨locals, []⟩ := Option.some.inj (hf.symm.trans (hb.sound.unmarked ht))
    have hfit := hb.sound.fitting hf
    refine ⟨⟨hfit.stack, fun n => hslot n ▸ hfit.locals n⟩, fun n hn => ?_⟩
    simp only [hslot] at hn ⊢
    exact hfit.paired n hn

lemma Final.ascending (hb : b.Final locals p) :
    (b.analysis locals p).frames.Pairwise fun r s => r.offset < s.offset := by
  have hlt := List.pairwise_iff_getElem.1 hb.decodes.pairwise_offset_lt
  rw [frames_analysis, List.pairwise_filterMap]
  refine List.pairwise_lt_range.imp_of_mem fun {n m} hn hm hnm r hr s hs => ?_
  have hn : n < b.insns.size := by simpa using hn
  have hm : m < b.insns.size := by simpa using hm
  rw [offset_recorded (Array.getElem?_eq_getElem hn) hr,
    offset_recorded (Array.getElem?_eq_getElem hm) hs]
  exact hlt n m hn hm hnm

lemma Final.certified (hb : b.Final locals p) (hlen : b.method.code.length ≤ 65535) :
    (b.analysis locals p).Certified b.method b.hierarchy b.ret (rewritten (b.traced p)) := by
  have hwalk := hb.walks_drop hlen (Nat.zero_le _) hb.ready_start
  rw [List.drop_zero] at hwalk
  refine ⟨Insn.decodeAll_eq_ok_iff.2 hb.decodes_rewritten, hb.ascending, fun r hr => ?_,
    fun i hi t ht => hwalk.jumps hi ht, fun e he => ?_,
    fun front i j back he hi => (he ▸ hwalk).ends hi, hwalk⟩
  · obtain ⟨n, i, hi, -, hoff⟩ := mem_frames hr
    have hpos := hb.decodes.len_pos_of_mem (List.mem_of_getElem? (by simpa using hi))
    have hmem : (n, i, p.frameAt n) ∈ b.traced p :=
      List.mem_of_getElem? (i := n) (by simp [getElem?_traced, hi])
    obtain ⟨j, hj, he⟩ := exists_mem_rewritten hpos hmem
    exact ⟨j, hj, he.trans hoff.symm⟩
  · obtain ⟨e', he', hh, -, -, n, i, f, hi, hf, hc⟩ := hb.handler hlen he
    obtain ⟨i', out, hi', hst⟩ := hb.settled hf
    obtain rfl : i = i' := Option.some.inj (hi.symm.trans hi')
    obtain ⟨v, -, ⟨k, hk, ht, g, hg, -⟩, -⟩ := hst.handlers e' he' hc
    obtain ⟨w, hw, -⟩ := hb.written hk hg ht
    rw [hh, hw]
    rfl

end Body

/-- Every analysis is a certificate: the frames it has written down, with the first locals of the
method, are all that a checker needs to walk over its code once. -/
theorem MethodCode.analyze_certified {m : MethodCode} {h : Hierarchy} {a : Analysis}
    (hh : h.Grounded) (hlen : m.code.length ≤ 65535) (ha : m.analyze h = .ok a) :
    ∃ params ret locals insns, Descriptor.parse m.desc = .ok (params, ret) ∧
      m.initialLocals params = .ok locals ∧
      (∀ n, slotType (expand a.initial) n = slotType locals n) ∧ a.Certified m h ret insns := by
  obtain ⟨insns, params, ret, locals, p, hparse, hlocals, hb, rfl⟩ := analyze_final hh ha
  exact ⟨params, ret, locals, _, hparse, hlocals,
    fun n => Body.slotType_expand_compress hb.paired n, hb.certified hlen⟩

/-- A branch over code that is not reached, all of it protected. -/
def protectedBranch : MethodCode where
  owner := "Sample"
  desc := "(I)V"
  isStatic := true
  isConstructor := false
  code := [0x1A, 0x99, 0, 6, 0xB1, 0, 0, 0xB1, 0x57, 0xB1]
  handlers := [⟨0, 8, 8, 0⟩]
  pool := {}

/-- Its analysis overwrites code and takes it out of the protected range. -/
lemma exists_analyze_protectedBranch :
    ∃ a, protectedBranch.analyze {} = .ok a ∧ a.code ≠ protectedBranch.code ∧
    a.handlers ≠ protectedBranch.handlers := by
  have hok : (protectedBranch.analyze {}).toOption.any fun a =>
      a.code ≠ protectedBranch.code ∧ a.handlers ≠ protectedBranch.handlers := by decide +kernel
  obtain ⟨a, ha, hne⟩ := (Option.any_eq_true ..).1 hok
  exact ⟨a, Except.toOption_eq_some_iff.1 ha, of_decide_eq_true hne⟩

theorem analyze_protectedBranch_certified :
    ∃ a insns, protectedBranch.analyze {} = .ok a ∧ a.Certified protectedBranch {} "V" insns := by
  obtain ⟨a, ha, -⟩ := exists_analyze_protectedBranch
  have hparse : Descriptor.parse protectedBranch.desc = .ok (["I"], "V") := by decide +kernel
  obtain ⟨params, ret, locals, insns, hp, -, -, hc⟩ :=
    MethodCode.analyze_certified Hierarchy.grounded_platform (by decide) ha
  obtain ⟨-, rfl⟩ : params = ["I"] ∧ ret = "V" := by
    simpa using Except.ok.inj (hp.symm.trans hparse)
  exact ⟨a, insns, ha, hc⟩

end Classwright
