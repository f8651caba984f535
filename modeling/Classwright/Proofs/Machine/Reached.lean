import Classwright.Proofs.Frame.Settled
import Classwright.Proofs.Machine.Stepping

/-!
What the machine finds in analysed code.

The machine runs code as the analysis leaves it: instructions that no path comes to are overwritten,
and protected ranges are cut down to the rest. From the start of a method on, it comes only to
instructions that the analysis has reached (`Enclosure`). Those it finds as they were assembled, and
an exception there has the handler that it had.
-/

namespace Classwright.Machine

open List

/-! ### Tables of instructions -/

variable {is : List Insn}

lemma getElem?_insnTable {size : Nat} {i : Insn} (hi : i ∈ is)
    (hsize : i.offset < size) (hp : is.Pairwise fun i j => i.offset ≠ j.offset) :
    (insnTable size is)[i.offset]? = some (some i) := by
  have hstay (js : List Insn) (t : Array (Option Insn)) (hne : ∀ j ∈ js, j.offset ≠ i.offset) :
      (js.foldl (fun t i => t.setIfInBounds i.offset (some i)) t)[i.offset]? = t[i.offset]? := by
    induction js generalizing t with
    | nil => rfl
    | cons j js ih =>
      rw [foldl_cons, ih _ fun k hk => hne k (mem_cons_of_mem _ hk)]
      exact Array.getElem?_setIfInBounds_ne (hne j mem_cons_self)
  obtain ⟨front, back, rfl⟩ := append_of_mem hi
  rw [insnTable, foldl_append, foldl_cons, hstay]
  · refine Array.getElem?_setIfInBounds_self_of_lt ?_
    have hkeep (js : List Insn) (t : Array (Option Insn)) :
        (js.foldl (fun t i => t.setIfInBounds i.offset (some i)) t).size = t.size := by
      induction js generalizing t with
      | nil => rfl
      | cons j js ih => simp [ih]
    rw [hkeep]
    simpa using hsize
  · intro j hj
    have := (pairwise_cons.1 (pairwise_append.1 hp).2.1).1 j hj
    exact this.symm

lemma insnAt?_insnTable {code : Bytes} (hd : Insn.Decodes 0 code is) {i : Insn}
    (hi : i ∈ is) : insnAt? (insnTable code.length is) i.offset = some i := by
  obtain ⟨-, hend, -⟩ := hd.decode_of_mem hi
  have hpos := hd.len_pos_of_mem hi
  simp only [Insn.next] at hend
  have hlt : i.offset < code.length := by omega
  have hget := getElem?_insnTable hi hlt (hd.pairwise_offset_lt.imp fun h => h.ne)
  rw [insnAt?, if_neg (by omega), Int.toNat_natCast, hget]
  rfl

/-! ### Handlers -/

/-- Whether a row takes an exception. -/
def catches (pool : Pool) (id : Nat) (catchType : UInt16) : Exec Bool := do
  if catchType = 0 then return true
  instanceOf (.obj id) (← pooled (pool.classAt catchType))

variable {pool : Pool} {pc id : Nat}

lemma findHandler_cons (e : ExceptionEntry) (es : List ExceptionEntry) :
    findHandler pool pc id (e :: es) = if e.covers pc then do
        if ← catches pool id e.catchType then return some e.handler.toNat
        findHandler pool pc id es
      else findHandler pool pc id es := by
  have hc : (pc < e.start.toNat || e.stop.toNat ≤ pc) = !e.covers pc := by
    simp only [ExceptionEntry.covers, Bool.not_and, ← decide_not, not_le, not_lt]
  rw [findHandler, hc]
  cases e.covers pc with
  | false => rfl
  | true =>
    by_cases h0 : e.catchType = 0
    · simp [catches, h0]
    · simp [catches, h0]

/-- The first of some handlers that takes an exception. -/
def firstCatching (pool : Pool) (id : Nat) : List (UInt16 × UInt16) → Exec (Option Nat)
  | [] => return none
  | (handler, catchType) :: rest => do
    if ← catches pool id catchType then return some handler.toNat
    firstCatching pool id rest

/-- Only the rows that cover an offset matter there, and of those only what they catch and where. -/
lemma findHandler_eq (es : List ExceptionEntry) :
    findHandler pool pc id es = firstCatching pool id (Classwright.Body.covering es pc) := by
  induction es with
  | nil => rfl
  | cons e es ih =>
    rw [findHandler_cons, Classwright.Body.covering_cons, ih]
    split <;> rfl

/-! ### What is reached -/

/-- A set of offsets that the machine does not leave while it runs analysed code: it holds the start
of the method, and with an instruction all that control may go on to. -/
structure Enclosure (m : MethodCode) (a : Analysis) (table : Array (Option Insn))
    (live : Nat → Prop) : Prop where
  start : live 0
  boundary : ∀ {insns p}, Insn.Decodes 0 m.code insns → live p → ∃ i ∈ insns, i.offset = p
  unchanged : ∀ {insns i}, Insn.Decodes 0 m.code insns → i ∈ insns → live i.offset →
    (a.code.drop i.offset).take i.len = (m.code.drop i.offset).take i.len
  overwritten : ∀ {insns i}, Insn.Decodes 0 m.code insns → i ∈ insns → ¬ live i.offset →
    ∃ last, (a.code.drop i.offset).take i.len = Classwright.Body.deadBytes last i.len
  fetch : ∀ {i}, Insn.decode i.offset (m.code.drop i.offset) = .ok i → live i.offset →
    insnAt? table i.offset = some i
  transfer : ∀ {i}, Insn.decode i.offset (m.code.drop i.offset) = .ok i → live i.offset →
    ∃ c f g, c.method = m ∧ i.transfer c f = .ok g
  jump : ∀ {i}, Insn.decode i.offset (m.code.drop i.offset) = .ok i → live i.offset →
    ∀ t ∈ i.jumps, ∃ q : Nat, t = q ∧ live q
  next : ∀ {i}, Insn.decode i.offset (m.code.drop i.offset) = .ok i → live i.offset →
    i.fallsThrough → live i.next
  handler : ∀ {p e}, live p → e ∈ m.handlers → e.covers p → live e.handler.toNat
  covering : ∀ {p}, live p →
    Classwright.Body.covering a.handlers p = Classwright.Body.covering m.handlers p

end Classwright.Machine

namespace Classwright

open Machine

namespace Body

variable {b : Body} {locals : List VType} {p : Progress} {offset : Nat} {i : Insn}

/-- The instruction at an offset that was reached, and its frame. -/
lemma Placed.of_live (hb : b.Placed) (hl : b.Live p offset)
    (hi : Insn.decode offset (b.method.code.drop offset) = .ok i) :
    ∃ n f, b.insns[n]? = some i ∧ i.offset = offset ∧ p.frameAt n = some f := by
  obtain ⟨n, f, hn, hf⟩ := hl
  obtain ⟨j, hj, he⟩ := (hb.indexed _ _).1 hn
  obtain rfl : j.offset = offset := by omega
  have hdec := (hb.decodes.decode_of_mem (List.mem_of_getElem? (by simpa using hj))).2.2
  obtain rfl := Except.ok.inj (hdec.symm.trans hi)
  exact ⟨n, f, hj, rfl, hf⟩

lemma Ended.settled_of_live (hb : b.Ended p) (hl : b.Live p offset)
    (hi : Insn.decode offset (b.method.code.drop offset) = .ok i) :
    ∃ n f after, b.insns[n]? = some i ∧ i.offset = offset ∧ b.Settled .anyhow p n i f after := by
  obtain ⟨n, f, hi, hoff, hf⟩ := hb.of_live hl hi
  obtain ⟨j, after, hj, hst⟩ := hb.settled hf
  obtain rfl : i = j := Option.some.inj (hi.symm.trans hj)
  exact ⟨n, f, after, hi, hoff, hst⟩

lemma Placed.exists_decode (hb : b.Placed) (hl : b.Live p offset) :
    ∃ i, Insn.decode offset (b.method.code.drop offset) = .ok i := by
  obtain ⟨n, f, hn, hf⟩ := hl
  obtain ⟨j, hj, he⟩ := (hb.indexed _ _).1 hn
  obtain rfl : j.offset = offset := by omega
  exact ⟨j, (hb.decodes.decode_of_mem (List.mem_of_getElem? (by simpa using hj))).2.2⟩

lemma Placed.live (hb : b.Placed) {n : Nat} {f : Frame} (hi : b.insns[n]? = some i)
    (hf : p.frameAt n = some f) : b.Live p i.offset :=
  ⟨n, f, (hb.indexed _ _).2 ⟨i, hi, rfl⟩, hf⟩

/-- The bytes at an instruction: as they were if it was reached, or else idle ones. -/
lemma Placed.take_analysis (hb : b.Placed) (locals : List VType) {n : Nat}
    (hi : b.insns[n]? = some i) : ∃ last, ((b.analysis locals p).code.drop i.offset).take i.len =
      if (p.frameAt n).isSome then (b.method.code.drop i.offset).take i.len else deadBytes last
      i.len := by
  have hmem : (n, i, p.frameAt n) ∈ b.traced p :=
    List.mem_of_getElem? (i := n) (by simp [getElem?_traced, hi])
  exact take_overwrite (map_traced ▸ hb.decodes) hmem

/-- What an analysis has reached is not left. -/
lemma Ended.enclosure (hb : b.Ended p) (hlen : b.method.code.length ≤ 65536) {insns : List Insn}
    (hd : Insn.Decodes 0 (b.analysis locals p).code insns) :
    Enclosure b.method (b.analysis locals p) (insnTable (b.analysis locals p).code.length insns)
    (b.Live p) where
  start := by
    obtain ⟨f, hf⟩ := hb.listed.first
    obtain ⟨i, hi⟩ : ∃ i, b.insns[0]? = some i :=
      ⟨_, Array.getElem?_eq_getElem (Progress.lt_of_frameAt hb.listed.sized hf)⟩
    have hoff : i.offset = 0 := by
      have hdec := hb.decodes
      rw [← Array.getElem?_toList] at hi
      generalize b.insns.toList = is at hi hdec
      generalize b.method.code = code at hdec
      cases hdec with
      | nil => simp at hi
      | cons head _ =>
        obtain rfl := Option.some.inj hi
        exact Insn.offset_of_decode head
    exact hoff ▸ hb.live hi hf
  boundary {insns offset} hd hl := by
    obtain ⟨n, f, hn, hf⟩ := hl
    obtain ⟨j, hj, he⟩ := (hb.indexed _ _).1 hn
    obtain rfl := hd.unique hb.decodes
    exact ⟨j, List.mem_of_getElem? (by simpa using hj), by omega⟩
  unchanged {insns i} hd hi hl := by
    obtain ⟨n, f, hi, -, hf⟩ := hb.of_live hl (hd.decode_of_mem hi).2.2
    obtain ⟨last, h⟩ := hb.take_analysis (p := p) locals hi
    rwa [hf] at h
  overwritten {insns i} hd hi hl := by
    obtain rfl := hd.unique hb.decodes
    obtain ⟨n, hn⟩ := List.getElem?_of_mem hi
    rw [Array.getElem?_toList] at hn
    obtain ⟨last, h⟩ := hb.take_analysis (p := p) locals hn
    cases hf : p.frameAt n with
    | some f => exact absurd (hb.live hn hf) hl
    | none => exact ⟨last, by rwa [hf] at h⟩
  fetch {i} hi hl := by
    obtain ⟨n, f, hi, -, hf⟩ := hb.of_live hl hi
    have hmem : i ∈ rewritten (b.traced p) :=
      mem_rewritten (n := n) (f := f)
        (List.mem_of_getElem? (i := n) (by simp [getElem?_traced, hi, hf]))
    obtain rfl := hd.unique hb.decodes_rewritten
    exact insnAt?_insnTable hd hmem
  transfer {i} hi hl := by
    obtain ⟨n, f, after, -, -, hst⟩ := hb.settled_of_live hl hi
    exact ⟨b.context, f, after, rfl, hst.transfer⟩
  jump {i} hi hl t ht := by
    obtain ⟨n, f, after, hi, -, hst⟩ := hb.settled_of_live hl hi
    obtain ⟨k, hk, -, g, hg, -⟩ := hst.jumps t ht
    obtain ⟨x, hx, rfl⟩ := (hb.indexed _ _).1 hk
    exact ⟨x.offset, rfl, hb.live hx hg⟩
  next {i} hi hl hfall := by
    obtain ⟨n, f, after, hi, -, hst⟩ := hb.settled_of_live hl hi
    obtain ⟨g, hg, -⟩ := hst.next hfall
    obtain ⟨x, hx⟩ : ∃ x, b.insns[n + 1]? = some x :=
      ⟨_, Array.getElem?_eq_getElem (Progress.lt_of_frameAt hb.listed.sized hg)⟩
    have hoff := hb.decodes.offset_succ (n := n) (by simpa using hi) (by simpa using hx)
    exact hoff ▸ hb.live hx hg
  handler {offset e} hl he hc := by
    obtain ⟨i, hdec⟩ := hb.exists_decode hl
    obtain ⟨n, f, after, -, rfl, hst⟩ := hb.settled_of_live hl hdec
    obtain ⟨v, -, ⟨k, hk, -, g, hg, -⟩, -⟩ := hst.handlers e he hc
    obtain ⟨x, hx, hxo⟩ := (hb.indexed _ _).1 hk
    obtain h : x.offset = e.handler.toNat := by omega
    exact h ▸ hb.live hx hg
  covering hl := by
    obtain ⟨i, hdec⟩ := hb.exists_decode hl
    obtain ⟨n, f, hi, rfl, hf⟩ := hb.of_live hl hdec
    exact hb.covering_analysis hlen hi hf

end Body

/-- Analysed code is run as it was assembled. -/
lemma MethodCode.analyze_enclosure {m : MethodCode} {h : Hierarchy} {a : Analysis}
    (hlen : m.code.length ≤ 65536) (ha : m.analyze h = .ok a) :
    ∃ insns live, Insn.decodeAll a.code = .ok insns ∧
    Enclosure m a (insnTable a.code.length insns) live := by
  obtain ⟨insns, ret, locals, p, hb, rfl⟩ := analyze_ended ha
  have hd : Insn.Decodes 0 ((Body.ofInsns m h ret insns).analysis locals p).code _ :=
    hb.decodes_rewritten
  exact ⟨_, _, Insn.decodeAll_eq_ok_iff.2 hd, hb.enclosure hlen hd⟩

end Classwright
