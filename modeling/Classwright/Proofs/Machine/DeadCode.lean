import Classwright.Proofs.Bytes
import Classwright.Proofs.Frame.Certificate
import Classwright.Proofs.Machine.Lockstep

/-!
Overwriting code that is not reached.

An analysis overwrites instructions that no path comes to and takes them out of the protected
ranges. Nothing that is run changes by this (`MethodCode.analyze_preserved`), as long as the code
has no more bytes than offsets of ranges can tell apart; longer code may lose a handler.
-/

namespace Classwright

open Insn List Machine

namespace Machine

/-- Control goes on: an instruction is executed, and at another offset comes the next. -/
def Goes (handlers : List ExceptionEntry) (table : Array (Option Insn))
    (x y : Machine.Frame × Int × State) : Prop :=
  ∃ n depth, round (invoke n depth) handlers table x.1 x.2.1 x.2.2 = .onward y.1 y.2.1 y.2.2

section

variable {c c' : CodeAttribute} {table table' : Array (Option Insn)} {live : Int → Prop}
  {x y : Machine.Frame × Int × State}

/-- A round from where two codes are the same stays there, in either code. -/
lemma Mirrored.live_of_goes (hm : Mirrored c table c' table' live) (hx : live x.2.1)
    (h : Goes c.handlers table x y ∨ Goes c'.handlers table' x y) : live y.2.1 := by
  have hround (n depth : Nat) := hm.round ((run_agree n).1 depth) hx (.refl x.1) (.refl x.2.2)
  rcases h with ⟨n, depth, h⟩ | ⟨n, depth, h⟩
  · exact (hround n depth).stays (.inl h)
  · exact (hround n depth).stays (.inr h)

/-- And so does a whole run from the start of the method. -/
lemma Mirrored.live_of_run (hm : Mirrored c table c' table' live) {handlers : List ExceptionEntry}
    {insns : Array (Option Insn)}
    (hcode : handlers = c.handlers ∧ insns = table ∨ handlers = c'.handlers ∧ insns = table')
    {f : Machine.Frame} {s : State} (h : Relation.ReflTransGen (Goes handlers insns) (f, 0, s) y) :
    live y.2.1 := by
  induction h with
  | refl => exact hm.start
  | tail _ hgoes ih =>
    refine hm.live_of_goes ih ?_
    rcases hcode with ⟨rfl, rfl⟩ | ⟨rfl, rfl⟩
    · exact .inl hgoes
    · exact .inr hgoes

end

end Machine

/-- What an analysis keeps of a method. The set `live` has the offsets of the instructions that it
has reached. -/
structure MethodCode.Preserved (m : MethodCode) (a : Analysis) (insns insns' : List Insn)
    (live : Nat → Prop) : Prop where
  runs : ∀ (r : Routine) (c : CodeAttribute) {s s' : State}, s.Analysed s' → ∀ n depth args,
    Alike
      (invoke n depth (r.withCode { c with code := m.code, handlers := m.handlers } insns) args s)
      (invoke n depth (r.withCode { c with code := a.code, handlers := a.handlers } insns') args s')
  visits : ∀ {f s y}, Relation.ReflTransGen (Goes m.handlers (insnTable m.code.length insns))
    (f, 0, s) y →
    ∃ p : Nat, y.2.1 = p ∧ live p
  visits' : ∀ {f s y}, Relation.ReflTransGen (Goes a.handlers (insnTable a.code.length insns'))
    (f, 0, s) y →
    ∃ p : Nat, y.2.1 = p ∧ live p
  unchanged : ∀ i ∈ insns, live i.offset →
    (a.code.drop i.offset).take i.len = (m.code.drop i.offset).take i.len
  overwritten : ∀ i ∈ insns, ¬ live i.offset →
    ∃ last, (a.code.drop i.offset).take i.len = Body.deadBytes last i.len
  handlers : ∀ p, live p → Body.covering a.handlers p = Body.covering m.handlers p

/-- Overwriting code that is not reached changes nothing that is run. -/
theorem MethodCode.analyze_preserved {m : MethodCode} {h : Hierarchy} {a : Analysis}
    (hlen : m.code.length ≤ 65536) (ha : m.analyze h = .ok a) :
    ∃ insns insns' live, Insn.decodeAll m.code = .ok insns ∧ Insn.decodeAll a.code = .ok insns' ∧
      m.Preserved a insns insns' live := by
  obtain ⟨insns', live, hinsns', henc⟩ := analyze_enclosure hlen ha
  obtain ⟨insns, -, -, -, -, -, hd, -⟩ := analyzeWithin_eq_ok ha
  have hinsns := Insn.decodeAll_eq_ok_iff.2 hd
  have hm := henc.mirrored hd ⟨0, 0, [], [], []⟩
  refine ⟨insns, insns', live, hinsns, hinsns', ?_⟩
  constructor
  case runs =>
    intro r c s s' hs n depth args
    obtain ⟨hsame, hs⟩ := (run_agree n).1 depth (.code r c hlen ha hinsns hinsns') args hs
    exact ⟨hsame.eq, hs⟩
  case visits => exact fun hrun => hm.live_of_run (.inl ⟨rfl, rfl⟩) hrun
  case visits' => exact fun hrun => hm.live_of_run (.inr ⟨rfl, rfl⟩) hrun
  case unchanged => exact fun i hi hl => henc.unchanged hd hi hl
  case overwritten => exact fun i hi hl => henc.overwritten hd hi hl
  case handlers => exact fun p hl => henc.covering hl

theorem analyze_protectedBranch_preserved :
    ∃ a insns insns' live, protectedBranch.analyze {} = .ok a ∧ a.code ≠ protectedBranch.code ∧
      a.handlers ≠ protectedBranch.handlers ∧ protectedBranch.Preserved a insns insns' live := by
  obtain ⟨a, ha, hcode, hhandlers⟩ := exists_analyze_protectedBranch
  obtain ⟨insns, insns', live, -, -, hp⟩ :=
    MethodCode.analyze_preserved (by decide : protectedBranch.code.length ≤ 65536) ha
  exact ⟨a, insns, insns', live, ha, hcode, hhandlers, hp⟩

/-! ### Code that is too long

The parts of a range end at offsets modulo the range of an offset, so that a part may end before its
start in longer code. -/

namespace Body

variable {b : Body} {p q : Progress} {i : Insn} {f g : Frame} {t : Int} {k : Nat} {r : Progress}

lemma flow_of_none (hk : b.number? t = some k) (hf : p.frameAt k = none) :
    b.flow i t f p = .ok ((), p.setFrame k f) := by
  rw [flow_eq hk, hf]

lemma flow_of_same (hk : b.number? t = some k) (hf : p.frameAt k = some f)
    (hm : f.merge b.hierarchy f i.offset = .ok f) : b.flow i t f p = .ok ((), p) := by
  rw [flow_eq hk, hf]
  simp [hm]

lemma flowTo_of_flow (hk : b.number? t = some k) (h : b.flow i t f p = .ok ((), q)) :
    b.flowTo i t f p = .ok ((), q.setTarget k) := by
  refine StateT.bind_eq_ok_iff.2 ⟨(), q, h, ?_⟩
  rw [hk]
  rfl

/-- An instruction whose frame is sent on. -/
lemma visit_of_flows (hi : b.insns[k]? = some i) (hf : p.frameAt k = some f)
    (ht : i.transfer b.context f = .ok g)
    (hh : b.flowToHandlers i f.locals g.locals (p.noted f g i) = .ok ((), q))
    (ho : b.flowOn k i g q = .ok ((), r)) : b.visit k p = .ok ((), r) := by
  rw [visit_eq hi, hf]
  simp only [ht]
  exact StateT.bind_eq_ok_iff.2 ⟨(), q, hh, ho⟩

lemma visit_gotoWide (hi : b.insns[k]? = some i) (ha : i.op.action? = some .gotoWide)
    (hf : p.frameAt k = some f)
    (hh : b.flowToHandlers i f.locals f.locals (p.note f.words) = .ok ((), q))
    (ht : b.flowTo i i.operand f q = .ok ((), r)) :
    b.visit k p = .ok ((), r.setTarget (k + 1)) := by
  refine visit_of_flows hi hf (g := f) ?_ (q := q) ?_ ?_
  · unfold transfer effect
    rw [ha]
    rfl
  · have hlimit : i.localLimit = 0 := by
      unfold localLimit
      rw [ha]
    simpa [hlimit, Progress.noted, Progress.note, max_assoc] using hh
  · unfold flowOn
    rw [ha]
    exact StateT.bind_eq_ok_iff.2 ⟨(), r, ht, rfl⟩

/-- An instruction that is looked at, and the rest of the analysis. -/
lemma settle_of_visit {fuel : Nat} {rest : List Nat} (hwork : p.work = k :: rest)
    (hv : b.visit k (dequeue p k rest) = .ok ((), q)) :
    b.settle (fuel + 1) p = b.settle fuel q := by
  rw [settle_of_work_eq_cons hwork]
  show (b.visit k (dequeue p k rest) >>= _) = _
  rw [hv]
  rfl

end Body

namespace FarLoop

variable {n : Nat}

/-- A jump table at the offset 6 with `n` targets, which are all the table itself. -/
def table (n : Nat) : Bytes :=
  [0xAA, 0] ++ Bytes.ofInt32 0 ++ Bytes.ofInt32 0 ++ Bytes.ofInt32 (n - 1) ++
    (replicate n 0).flatMap Bytes.ofInt32

/-- A loop behind a jump table that is not reached. The handler of the loop stands before the
table. -/
def method (n : Nat) : MethodCode where
  owner := "A"
  desc := "()V"
  isStatic := true
  isConstructor := false
  code := [0xC8] ++ Bytes.ofInt32 (20 + 4 * n) ++ [0xBF] ++
    (table n ++ ([0xC8] ++ Bytes.ofInt32 0 ++ [0xB1]))
  handlers := [⟨.ofNat (20 + 4 * n), .ofNat (21 + 4 * n), 5, 0⟩]
  pool := {}

def jump (n : Nat) : Insn := { offset := 0, len := 5, op := ⟨0xC8⟩, operand := 20 + 4 * n }

def rethrow : Insn := { offset := 5, len := 1, op := ⟨0xBF⟩ }

def switch (n : Nat) : Insn :=
  { offset := 6, len := 14 + 4 * n, op := ⟨0xAA⟩, default := 6,
    keys := (range n).map fun i => 0 + (i : Nat), targets := replicate n 6 }

def loop (n : Nat) : Insn :=
  { offset := 6 + (14 + 4 * n), len := 5, op := ⟨0xC8⟩, operand := 20 + 4 * n }

def last (n : Nat) : Insn := { offset := 6 + (14 + 4 * n) + 5, len := 1, op := ⟨0xB1⟩ }

def insns (n : Nat) : List Insn := [jump n, rethrow, switch n, loop n, last n]

lemma decode_gotoWide (offset : Nat) {d : Int} (hd : -2 ^ 31 ≤ d ∧ d < 2 ^ 31) (rest : Bytes) :
    decode offset (0xC8 :: (Bytes.ofInt32 d ++ rest)) =
      .ok { offset, len := 5, op := ⟨0xC8⟩, operand := offset + d } := by
  have hread := Bytes.takeInt32?_ofInt32_of_mem hd []
  rw [append_nil] at hread
  obtain ⟨hint, -⟩ := Prod.mk.inj (Option.some.inj hread)
  have hlen : Action.gotoWide.operandLength = some (Bytes.ofInt32 d).length := rfl
  refine (decode_fixed hlen rest).trans (congrArg Except.ok ?_)
  show ({ offset, len := 5, op := ⟨0xC8⟩, operand := offset + Bytes.int32 _ _ _ _ } : Insn) = _
  rw [hint]

lemma length_table (n : Nat) : (table n).length = 14 + 4 * n := by
  have h : ((replicate n 0).flatMap Bytes.ofInt32).length = 4 * n := by
    rw [length_flatMap, map_replicate, sum_replicate, Nat.mul_comm]
    rfl
  rw [table, length_append, h]
  rfl

lemma decode_single {a : Action} (ha : a.operandLength = some 0) (offset : Nat) (rest : Bytes) :
    decode offset (a.opcode.byte :: rest) =
    .ok (withOperands { offset, len := 1, op := a.opcode } a []) :=
  decode_fixed (show a.operandLength = some ([] : Bytes).length from ha) rest

variable (hn : 0 < n) (hmax : n ≤ 16378)

include hn hmax

lemma decode_table (rest : Bytes) : decode 6 (table n ++ rest) = .ok (switch n) := by
  have hop : Opcode.action? ⟨0xAA⟩ = some .tableSwitch := Opcode.action?_opcode .tableSwitch
  have htargets := Bytes.takeInt32s?_ofInt32 (replicate n 0) rest
  rw [length_replicate, map_replicate] at htargets
  have hhigh := Bytes.takeInt32?_ofInt32_of_mem (i := (n : Int) - 1) (by omega)
    ((replicate n 0).flatMap Bytes.ofInt32 ++ rest)
  have hzero (bs : Bytes) := Bytes.takeInt32?_ofInt32_of_mem (i := 0) (by omega) bs
  unfold decode table
  simp only [cons_append, nil_append, append_assoc, hop]
  unfold decodeSwitch
  have hpad (bs : Bytes) : (0 :: bs).drop (tableStart 6 - 1) = bs := rfl
  simp only [hpad, hzero]
  unfold decodeTable
  have hcount : ((n : Int) - 1 - 0 + 1).toNat = n := by omega
  simp only [hhigh, hcount, htargets, if_neg (show ¬ (n : Int) - 1 < 0 by omega), if_true]
  simp [pure, Except.pure, tableStart, switch]

lemma decodes : Decodes 0 (method n).code (insns n) := by
  have hloop : Decodes (6 + (14 + 4 * n)) ([0xC8] ++ Bytes.ofInt32 0 ++ [0xB1])
      ((insns n).drop 3) := by
    refine .cons ((decode_gotoWide (6 + (14 + 4 * n)) (d := 0) (by omega) [0xB1]).trans ?_)
      (.cons (decode_single (a := .returnVoid) rfl _ _) (.nil _))
    congr 2
    push_cast
    ring
  have htable : Decodes 6 (table n ++ ([0xC8] ++ Bytes.ofInt32 0 ++ [0xB1]))
      ((insns n).drop 2) := by
    refine .cons (decode_table hn hmax _) ?_
    have hdrop : (table n ++ ([0xC8] ++ Bytes.ofInt32 0 ++ [0xB1])).drop (switch n).len =
        [0xC8] ++ Bytes.ofInt32 0 ++ [0xB1] := drop_left' (length_table n)
    rw [hdrop]
    exact hloop
  refine .cons ((decode_gotoWide 0 (d := 20 + 4 * n) (by omega) _).trans ?_)
    (.cons (decode_single (a := .throwValue) rfl _ _) htable)
  simp [jump]

/-- The body of the method. -/
def body (n : Nat) : Body := .ofInsns (method n) {} "V" (insns n)

lemma indexed : (body n).Indexed := Body.indexed_ofInsns (decodes hn hmax)

lemma number?_loop : (body n).number? (20 + 4 * n) = some 3 := by
  refine (indexed hn hmax _ _).2 ⟨_, rfl, ?_⟩
  show ((6 + (14 + 4 * n) : Nat) : Int) = 20 + 4 * n
  omega

lemma number?_handler : (body n).number? 5 = some 1 :=
  (indexed hn hmax _ _).2 ⟨_, rfl, rfl⟩

omit hn in
lemma flowToHandlers_of_lt {i : Insn} (hi : i.offset < 20 + 4 * n) (before after : List VType)
    (p : Progress) : (body n).flowToHandlers i before after p = .ok ((), p) := by
  have hstart : (UInt16.ofNat (20 + 4 * n)).toNat = 20 + 4 * n := Body.toNat_word (by omega)
  have hbody : (body n).method.handlers = [⟨.ofNat (20 + 4 * n), .ofNat (21 + 4 * n), 5, 0⟩] := rfl
  unfold Body.flowToHandlers
  rw [hbody, forIn_cons]
  simp only [hstart, decide_eq_false (not_le.2 hi)]
  rfl

/-- The state of the analysis after the first instruction. -/
def afterFirst : Progress where
  frames := #[some ⟨[], []⟩, none, none, some ⟨[], []⟩, none]
  queued := #[false, false, false, true, false]
  work := [3]
  targets := #[false, true, false, true, false]
  maxStack := 0
  maxLocals := 0

lemma visit_first : (body n).visit 0 (Body.dequeue ((body n).start []) 0 []) =
    .ok ((), afterFirst) := by
  have hk := number?_loop hn hmax
  have ha : (jump n).op.action? = some .gotoWide := Opcode.action?_opcode .gotoWide
  have hoff : (jump n).offset < 20 + 4 * n := by
    show 0 < _
    omega
  exact (Body.visit_gotoWide (i := jump n) (f := ⟨[], []⟩) rfl ha rfl
    (flowToHandlers_of_lt hmax hoff _ _ _)
    (Body.flowTo_of_flow hk (Body.flow_of_none hk rfl))).trans rfl

/-- The state after the loop. -/
def afterLoop : Progress where
  frames := #[some ⟨[], []⟩, some ⟨[], [.ref throwableClass]⟩, none, some ⟨[], []⟩, none]
  queued := #[false, true, false, false, false]
  work := [1]
  targets := #[false, true, false, true, true]
  maxStack := 0
  maxLocals := 0

lemma flowToHandlers_loop {p : Progress} (hp : p.frameAt 1 = none) :
    (body n).flowToHandlers (loop n) [] [] p =
    .ok ((), (p.setFrame 1 ⟨[], [.ref throwableClass]⟩).setTarget 1) := by
  have hk := number?_handler hn hmax
  have hcovers : decide ((UInt16.ofNat (20 + 4 * n)).toNat ≤ (loop n).offset) &&
      decide ((loop n).offset < (UInt16.ofNat (21 + 4 * n)).toNat) := by
    rw [Body.toNat_word (by omega), Body.toNat_word (by omega)]
    refine Bool.and_eq_true_iff.2 ⟨decide_eq_true ?_, decide_eq_true ?_⟩
    · show 20 + 4 * n ≤ 6 + (14 + 4 * n)
      omega
    · show 6 + (14 + 4 * n) < 21 + 4 * n
      omega
  have hstore : (loop n).isStore = false := by
    unfold isStore
    rw [show (loop n).op.action? = some .gotoWide from Opcode.action?_opcode .gotoWide]
  have hbody : (body n).method.handlers = [⟨.ofNat (20 + 4 * n), .ofNat (21 + 4 * n), 5, 0⟩] := rfl
  unfold Body.flowToHandlers
  rw [hbody, forIn_cons]
  simp only [hcovers, hstore, if_true]
  refine StateT.bind_eq_ok_iff.2 ⟨(), _, StateT.bind_eq_ok_iff.2 ⟨.yield (), _, ?_, rfl⟩, rfl⟩
  exact StateT.bind_eq_ok_iff.2 ⟨_, _, rfl, StateT.bind_eq_ok_iff.2
    ⟨(), _, Body.flowTo_of_flow hk (Body.flow_of_none hk hp), rfl⟩⟩

lemma visit_loop : (body n).visit 3 (Body.dequeue afterFirst 3 []) = .ok ((), afterLoop) := by
  have hk := number?_loop hn hmax
  have ha : (loop n).op.action? = some .gotoWide := Opcode.action?_opcode .gotoWide
  exact (Body.visit_gotoWide (i := loop n) (f := ⟨[], []⟩) rfl ha rfl
    (flowToHandlers_loop hn hmax rfl) (Body.flowTo_of_flow hk (Body.flow_of_same hk rfl rfl))).trans
    rfl

/-- The state at the end. -/
def final : Progress where
  frames := #[some ⟨[], []⟩, some ⟨[], [.ref throwableClass]⟩, none, some ⟨[], []⟩, none]
  queued := Array.replicate 5 false
  work := []
  targets := #[false, true, true, true, true]
  maxStack := 1
  maxLocals := 0

omit hn in
lemma visit_rethrow : (body n).visit 1 (Body.dequeue afterLoop 1 []) = .ok ((), final) := by
  have ha : rethrow.op.action? = some .throwValue := Opcode.action?_opcode .throwValue
  have hoff : rethrow.offset < 20 + 4 * n := by
    show 5 < _
    omega
  have htransfer : rethrow.transfer (body n).context ⟨[], [.ref throwableClass]⟩ =
      .ok ⟨[], []⟩ := by
    unfold transfer effect
    rw [ha]
    rfl
  have hlimit : rethrow.localLimit = 0 := by
    unfold localLimit
    rw [ha]
  have hon (q : Progress) : (body n).flowOn 1 rethrow ⟨[], []⟩ q = .ok ((), q.setTarget 2) := by
    unfold Body.flowOn
    rw [ha]
    rfl
  refine (Body.visit_of_flows rfl rfl htransfer (flowToHandlers_of_lt hmax hoff _ _ _)
    (hon _)).trans ?_
  rw [Progress.noted, hlimit]
  rfl

lemma settle (fuel : Nat) : (body n).settle (fuel + 4) ((body n).start []) = .ok ((), final) := by
  calc (body n).settle (fuel + 4) ((body n).start [])
      = (body n).settle (fuel + 3) afterFirst := Body.settle_of_visit rfl (visit_first hn hmax)
    _ = (body n).settle (fuel + 2) afterLoop := Body.settle_of_visit rfl (visit_loop hn hmax)
    _ = (body n).settle (fuel + 1) final := Body.settle_of_visit rfl (visit_rethrow hmax)
    _ = .ok ((), final) := rfl

lemma analyzeWithin (fuel : Nat) :
    (method n).analyzeWithin (fuel + 4) {} = .ok ((body n).analysis [] final) := by
  have hinsns := decodeAll_eq_ok_iff.2 (decodes hn hmax)
  have hparse : Descriptor.parse "()V" = .ok ([], "V") := by decide +kernel
  unfold MethodCode.analyzeWithin
  rw [if_neg (by exact Bool.noConfusion)]
  refine Except.bind_eq_ok_iff.2 ⟨insns n, Except.mapError_eq_ok_iff.2 hinsns, ?_⟩
  refine Except.bind_eq_ok_iff.2 ⟨([], "V"), Except.mapError_eq_ok_iff.2 hparse, ?_⟩
  refine Except.bind_eq_ok_iff.2 ⟨[], rfl, ?_⟩
  exact Except.bind_eq_ok_iff.2 ⟨((), final), settle hn hmax fuel, rfl⟩

lemma analyze : (method n).analyze {} = .ok ((body n).analysis [] final) := by
  have hfuel : analysisFuel - 4 + 4 = analysisFuel := Nat.sub_add_cancel (by decide)
  rw [MethodCode.analyze, ← hfuel]
  exact analyzeWithin hn hmax _

/-- Control comes to the loop. -/
lemma goes_loop (f : Machine.Frame) (s : State) :
    Goes (method n).handlers (insnTable (method n).code.length (insns n)) (f, 0, s)
    (f, 20 + 4 * n, s) := by
  have hi := insnAt?_insnTable (decodes hn hmax) (i := jump n) mem_cons_self
  have ha : (jump n).op.action? = some .gotoWide := Opcode.action?_opcode .gotoWide
  refine ⟨0, 0, ?_⟩
  show Machine.round (invoke 0 0) _ _ f ((jump n).offset : Int) s = _
  unfold Machine.round step
  rw [hi]
  dsimp only
  rw [ha]
  rfl

end FarLoop

/-- Behind the last offset of ranges, an analysis may take a handler from an instruction that is
run. -/
theorem analyze_farLoop_not_preserved :
    ∃ a, (FarLoop.method 16378).analyze {} = .ok a ∧ ∀ insns insns' live,
      Insn.decodeAll (FarLoop.method 16378).code = .ok insns →
      ¬ (FarLoop.method 16378).Preserved a insns insns' live := by
  refine ⟨_, FarLoop.analyze (by decide) (by decide), fun insns insns' live hinsns hp => ?_⟩
  have hd := FarLoop.decodes (n := 16378) (by decide) (by decide)
  obtain rfl := Except.ok.inj (hinsns.symm.trans (Insn.decodeAll_eq_ok_iff.2 hd))
  obtain ⟨p, hpc, hl⟩ := hp.visits (.single (FarLoop.goes_loop (by decide) (by decide)
    ⟨⟨"A", "run", "()V", .none, .empty⟩, #[], []⟩ {}))
  obtain rfl : p = 65532 := by
    dsimp only at hpc
    omega
  have hsame := hp.handlers 65532 hl
  have hbefore : Body.covering (FarLoop.method 16378).handlers 65532 = [(5, 0)] := by decide +kernel
  have hafter : Body.covering ((FarLoop.body 16378).analysis [] FarLoop.final).handlers 65532 =
      [] := by
    decide +kernel
  rw [hbefore, hafter] at hsame
  cases hsame

end Classwright
