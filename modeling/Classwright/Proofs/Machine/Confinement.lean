import Classwright.Proofs.Bytecode.Flow
import Classwright.Proofs.Lowering.Finishing
import Classwright.Proofs.Machine.DeadCode

/-!
Control that does not leave a part of the code.

The machine runs what is decoded of finished code (`Image`). Where finished code confines control to
some offsets until it goes behind a part, so does the machine (`Image.keeps`).
-/

namespace Classwright

namespace Machine

variable {inv : Invoke} {handlers : List ExceptionEntry} {table : Array (Option Insn)}
  {f f' : Frame} {pc pc' : Int} {s s' : State} {i : Insn} {x y : Frame × Int × State}

/-! ### Rounds -/

/-- Control goes from one place to another, whatever calls do. -/
def Moves (handlers : List ExceptionEntry) (table : Array (Option Insn))
    (x y : Frame × Int × State) : Prop :=
  ∀ inv, round inv handlers table x.1 x.2.1 x.2.2 = .onward y.1 y.2.1 y.2.2

lemma Moves.goes (h : Moves handlers table x y) : Goes handlers table x y := ⟨0, 0, h _⟩

lemma Moves.of_step (hi : insnAt? table pc = some i)
    (h : ∀ inv, step inv i f s = ((.ok (.goto pc'), f'), s')) :
    Moves handlers table (f, pc, s) (f', pc', s') := by
  intro inv
  show round inv handlers table f pc s = _
  rw [round, hi]
  dsimp only
  rw [h inv]

/-- Control comes to a target of the instruction, to the next one, or to a handler that covers
it. -/
lemma round_eq_onward (h : round inv handlers table f pc s = .onward f' pc' s') :
    ∃ i, insnAt? table pc = some i ∧ (pc' ∈ i.jumps ∨ i.fallsThrough ∧ pc' = i.next ∨
      ∃ row ∈ Classwright.Body.covering handlers i.offset, pc' = row.1.toNat) := by
  unfold round at h
  cases hi : insnAt? table pc with
  | none =>
    rw [hi] at h
    cases h
  | some i =>
    rw [hi] at h
    dsimp only at h
    refine ⟨i, rfl, ?_⟩
    generalize hstep : step inv i f s = r at h
    obtain ⟨⟨(id | _ | _) | (pc | v), g⟩, t⟩ := r
    · dsimp only at h
      generalize hfind : findHandler g.routine.pool i.offset id handlers t = found at h
      obtain ⟨_ | _ | q, t'⟩ := found
      · cases h
      · cases h
      · obtain ⟨rfl, rfl, rfl⟩ := Round.onward.inj h
        obtain ⟨row, hrow, rfl⟩ := mem_covering_of_findHandler hfind
        exact .inr (.inr ⟨row, hrow, rfl⟩)
    · cases h
    · cases h
    · obtain ⟨rfl, rfl, rfl⟩ := Round.onward.inj h
      exact (goes_of_step hstep).imp_right .inl
    · cases h

/-- A run that comes to `p` with a number on the stack goes on to `q` without it, whatever calls
do. -/
def Consumes (c : CodeAttribute) (table : Array (Option Insn)) (v : Int32) (p q : Nat) : Prop :=
  ∀ f₀ s₀ f s st, Relation.ReflTransGen (Goes c.handlers table) (f₀, 0, s₀) (f, p, s) →
    f.stack = .int v :: st →
    Relation.TransGen (Moves c.handlers table) (f, p, s) ({ f with stack := st }, q, s)

/-- A run that comes to the start of an extent leaves it for offsets from `stop` on only. -/
def Keeps (c : CodeAttribute) (table : Array (Option Insn)) (e : Nat × Nat) (stop : Nat) : Prop :=
  ∀ f₀ s₀ f s y, Relation.ReflTransGen (Goes c.handlers table) (f₀, 0, s₀) (f, e.1, s) →
    Relation.ReflTransGen (fun a b => a.2.1 < (stop : Int) ∧ Goes c.handlers table a b)
      (f, e.1, s) y →
    (e.1 : Int) ≤ y.2.1 ∧ y.2.1 < e.2 ∨ (stop : Int) ≤ y.2.1

/-! ### Instructions -/

variable {r : Routine} {L : Array Value} {st : List Value} {v : Int32} {w : Value}

lemma step_switch (ha : i.op.action? = some .tableSwitch ∨ i.op.action? = some .lookupSwitch) :
    step inv i ⟨r, L, .int v :: st⟩ s = ((.ok (.goto (switchTarget i v)), ⟨r, L, st⟩), s) := by
  unfold step
  rcases ha with ha | ha <;>
    · rw [ha]
      rfl

lemma step_pop (ha : i.op.action? = some .pop) :
    step inv i ⟨r, L, .int v :: st⟩ s = ((.ok (.goto i.next), ⟨r, L, st⟩), s) :=
  step_of_perform ha rfl rfl rfl

lemma step_goto (ha : i.op.action? = some .goto) :
    step inv i f s = ((.ok (.goto i.operand), f), s) :=
  step_of_taken (b := true) ha rfl rfl

/-! ### Finished code -/

/-- Assembled code and what the machine runs for it, which is decoded from analysed bytes. A run
from the start of the method does not leave the offsets `live`, where both are the same. -/
structure Image (code : Code) (rows : List ExceptionEntry) (c : CodeAttribute)
    (table : Array (Option Insn)) (live : Nat → Prop) : Prop where
  fetch : ∀ {p i}, code.Codes p i → live p → i.offset = p ∧ insnAt? table p = some i
  covering : ∀ {p}, live p →
    Classwright.Body.covering c.handlers p = Classwright.Body.covering rows p
  visits : ∀ {f s y}, Relation.ReflTransGen (Goes c.handlers table) (f, 0, s) y →
    ∃ p : Nat, y.2.1 = p ∧ live p

namespace Image

variable {code : Code} {rows : List ExceptionEntry} {c : CodeAttribute} {live : Nat → Prop}
  {S : Set Nat} {stop p : Nat}

/-- Control that is confined to some offsets stays there or goes behind. -/
lemma stays (h : Image code rows c table live) (hconf : code.Confines rows S stop) (hx : x.2.1 = p)
    (hl : live p) (hp : p ∈ S) (hgoes : Goes c.handlers table x y) :
    ∃ q : Nat, y.2.1 = q ∧ (q ∈ S ∨ stop ≤ q) := by
  obtain ⟨n, depth, hgoes⟩ := hgoes
  obtain ⟨i, hi, hjumps, hfalls⟩ := hconf.codes p hp
  obtain ⟨j, hj, hto⟩ := round_eq_onward hgoes
  obtain ⟨rfl, hi⟩ := h.fetch hi hl
  obtain rfl : i = j := Option.some.inj (hi.symm.trans (hx ▸ hj))
  rcases hto with hto | ⟨hf, hto⟩ | ⟨row, hrow, hto⟩
  · exact hjumps _ hto
  · exact ⟨i.next, hto, hfalls hf⟩
  · rw [h.covering hl] at hrow
    obtain ⟨e, he, rfl⟩ := List.mem_map.1 hrow
    obtain ⟨he, hcov⟩ := List.mem_filter.1 he
    exact ⟨e.handler.toNat, hto, hconf.handlers _ hp e he hcov⟩

/-- And so does a run from the start of a confined extent. -/
lemma keeps (h : Image code rows c table live) {e : Nat × Nat} (hconf : code.Confined rows stop e) :
    Keeps c table e stop := by
  intro f₀ s₀ f s y hrun hgoes
  obtain ⟨S, hconf, hin, hstart⟩ := hconf
  have hstays : ∃ q : Nat, y.2.1 = q ∧ (q ∈ S ∨ stop ≤ q) := by
    induction hgoes with
    | refl => exact ⟨e.1, rfl, hstart⟩
    | @tail a b hpre hab ih =>
      obtain ⟨q, hq, hqS⟩ := ih
      obtain ⟨p, hp, hl⟩ :=
        h.visits (hrun.trans (Relation.ReflTransGen.mono (fun _ _ h => h.2) _ _ hpre))
      obtain rfl : q = p := by omega
      exact h.stays hconf hq hl (hqS.resolve_right (by have := hab.1; omega)) hab.2
  obtain ⟨q, hq, hqS⟩ := hstays
  rcases hqS with hqS | hqS
  · have := hin q hqS
    omega
  · omega

end Image

end Machine

namespace Lowering

open Machine (Image insnTable)

section

variable {env : Env} {σ : State} {c : CodeAttribute} {method : MethodCode} {a : Analysis}
  (h : Finished env σ c method a) (hl : σ.code.Laid)

include h hl

/-- The machine runs an image of a finished method, at the offsets that its analysis has reached. -/
lemma Finished.image_of {insns : List Insn} {live : Nat → Prop}
    (henc : Machine.Enclosure method a (insnTable c.code.length insns) live) :
    Image σ.code method.handlers c (insnTable c.code.length insns) live := by
  obtain ⟨insns', -, -, -, -, -, hd, -⟩ := MethodCode.analyzeWithin_eq_ok h.analysed
  refine ⟨fun hi hlive => ?_, fun hlive => ?_, fun hrun => ?_⟩
  · obtain ⟨rfl, hdec⟩ := hl.decode_of_codes h.assembled hi
    exact ⟨rfl, henc.fetch hdec hlive⟩
  · rw [h.handlers]
    exact henc.covering hlive
  · rw [h.code] at henc
    rw [h.code, h.handlers] at hrun
    exact (henc.mirrored hd ⟨0, 0, [], [], []⟩).live_of_run (.inr ⟨rfl, rfl⟩) hrun

lemma Finished.image : ∃ insns live, Insn.decodeAll c.code = .ok insns ∧
    Image σ.code method.handlers c (insnTable c.code.length insns) live := by
  obtain ⟨insns, live, hdec, henc⟩ := h.enclosure hl
  exact ⟨insns, live, hdec, h.image_of hl henc⟩

end

end Lowering

end Classwright
