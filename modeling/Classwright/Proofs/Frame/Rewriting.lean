import Classwright.Proofs.Bytecode.Decoding
import Classwright.Proofs.Frame.Worklist

/-!
What an analysis writes down.

* `Body.decodes_overwrite`: code that was overwritten decodes to the instructions that were reached,
  as they were, with idle ones in place of the others.
* `Body.mem_liveRuns`: protected ranges cover instructions that were reached and covered before.
* `Body.covering_liveRuns`: and those have the handlers that they had.
* `Body.mapFrames_eq`: the frames that are written down, by the number of their instruction.
* `Body.slotType_expand_compress`: nothing is lost in compressed locals.
-/

namespace Classwright

open Insn List

/-! ### Locals -/

/-- Locals with an unknown second word after each two-word value. -/
def expand : List VType → List VType
  | [] => []
  | v :: vs => if v.isWide then v :: .top :: expand vs else v :: expand vs

lemma Paired.tail {v : VType} {vs : List VType} (hp : Paired (v :: vs)) : Paired vs := by
  intro n hn
  have := hp (n + 1)
  simp only [slotType_cons_succ] at this
  exact this hn

namespace Body

/-- Compressed locals say all that the locals did. -/
lemma slotType_expand_compress {locals : List VType} (hp : Paired locals) (n : Nat) :
    slotType (expand (compress locals)) n = slotType locals n := by
  fun_induction compress locals generalizing n with
  | case1 => rfl
  | case2 => cases n <;> simp [expand]
  | case3 v hv =>
    by_cases hw : v.isWide
    · rw [expand, if_pos hw]
      rcases n with _ | _ | n <;> simp [expand]
    · rw [expand, if_neg hw]
      simp [expand]
  | case4 v w rest hv ih =>
    rw [expand, if_pos hv]
    rcases n with _ | _ | n
    · simp
    · simpa using (hp 0 hv).symm
    · simpa using ih hp.tail.tail n
  | case5 w rest hnil hv ih =>
    cases n with
    | zero => rfl
    | succ n => simpa [hnil, expand] using ih hp.tail n
  | case6 v w rest hv hnil ht ih =>
    rw [expand, if_neg hv]
    cases n with
    | zero => rfl
    | succ n => simpa [hnil, expand] using ih hp.tail n
  | case7 v w rest hv hnil ih =>
    rw [expand, if_neg hv]
    cases n with
    | zero => rfl
    | succ n => simpa using ih hp.tail n

/-! ### Code -/

/-- An instruction of one byte that does nothing or throws. -/
def idle (throws : Bool) (offset : Nat) : Insn :=
  { offset, len := 1, op := (if throws then Action.throwValue else Action.nop).opcode }

/-- Instructions in place of one of a length. -/
def idleRun (last : Bool) (offset : Nat) : Nat → List Insn
  | 0 => []
  | 1 => [idle last offset]
  | n + 2 => idle false offset :: idleRun last (offset + 1) (n + 1)

/-- Whether code that is not reached ends before some instructions. -/
def endsRun : List (Nat × Insn × Option Frame) → Bool
  | (_, _, none) :: _ => false
  | _ => true

/-- The instructions of overwritten code. -/
def rewritten : List (Nat × Insn × Option Frame) → List Insn
  | [] => []
  | (_, i, some _) :: rest => i :: rewritten rest
  | (_, i, none) :: rest => idleRun (endsRun rest) i.offset i.len ++ rewritten rest

lemma action_idle (throws : Bool) (offset : Nat) :
    (idle throws offset).op.action? = some (if throws then .throwValue else .nop) := by
  exact Opcode.action?_opcode _

lemma decode_idle (throws : Bool) (offset : Nat) (rest : Bytes) :
    decode offset ((if throws then Action.throwValue else Action.nop).opcode.byte :: rest) =
      .ok (idle throws offset) := by
  cases throws
  · exact decode_fixed (show Action.nop.operandLength = some ([] : Bytes).length from rfl) rest
  · exact decode_fixed (show Action.throwValue.operandLength = some ([] : Bytes).length from rfl)
      rest

lemma deadBytes_succ (last : Bool) (len : Nat) :
    deadBytes last (len + 1 + 1) = Action.nop.opcode.byte :: deadBytes last (len + 1) := by
  cases last <;> simp [deadBytes, replicate_succ]

variable {offset n : Nat} {code : Bytes} {i : Insn} {f : Option Frame} {h : ExceptionEntry}

/-- The bytes in place of an instruction decode to idle ones. -/
lemma decodes_deadBytes {last : Bool} {len : Nat} {rest : Bytes} {is : List Insn}
    (hlen : 0 < len) (hrest : Decodes (offset + len) rest is) :
    Decodes offset (deadBytes last len ++ rest) (idleRun last offset len ++ is) := by
  induction len generalizing offset with
  | zero => simp at hlen
  | succ len ih =>
    have hnop := decode_idle false offset
    cases len with
    | zero =>
      cases last with
      | false => exact .cons (hnop rest) hrest
      | true => exact .cons (decode_idle true offset rest) hrest
    | succ len =>
      rw [deadBytes_succ]
      refine .cons (hnop _) (ih (by omega) ?_)
      exact (show offset + 1 + (len + 1) = offset + (len + 1 + 1) by omega) ▸ hrest

variable {traced : List (Nat × Insn × Option Frame)}

/-- Overwritten code has the instructions that were reached where they were. -/
lemma decodes_overwrite (hd : Decodes offset code (traced.map (·.2.1))) :
    Decodes offset (overwrite code traced) (rewritten traced) := by
  induction traced generalizing offset code with
  | nil => exact .nil offset
  | cons entry rest ih =>
    obtain ⟨n, i, f⟩ := entry
    cases hd with
    | cons head tail =>
      have hlen := len_le_of_decode head
      have hpos := len_pos_of_decode head
      have hoff := offset_of_decode head
      cases f with
      | none =>
        subst hoff
        exact decodes_deadBytes hpos (ih tail)
      | some f =>
        refine .cons (decode_take_append head _) ?_
        have hdrop : (code.take i.len ++ overwrite (code.drop i.len) rest).drop i.len =
            overwrite (code.drop i.len) rest := by
          rw [drop_left' (by simp [hlen])]
        rw [overwrite, hdrop]
        exact ih tail

/-- The bytes in place of the first of some instructions. -/
def firstBytes (code : Bytes) (i : Insn) (f : Option Frame)
    (rest : List (Nat × Insn × Option Frame)) : Bytes :=
  if f.isSome then code.take i.len else deadBytes (endsRun rest) i.len

lemma overwrite_cons (code : Bytes) (n : Nat) (i : Insn) (f : Option Frame)
    (rest : List (Nat × Insn × Option Frame)) :
    overwrite code ((n, i, f) :: rest) =
    firstBytes code i f rest ++ overwrite (code.drop i.len) rest := by
  cases f <;> rfl

/-- An instruction keeps its length. -/
lemma length_firstBytes (f : Option Frame) {rest : List (Nat × Insn × Option Frame)}
    (hd : Decodes offset code (((n, i, f) :: rest).map (·.2.1))) :
    (firstBytes code i f rest).length = i.len := by
  obtain ⟨hoff, hlen, hcur, -⟩ := Decodes.cons_inv (i := i) hd
  simp only [Insn.next] at hcur
  cases f with
  | some f => simp [firstBytes, hlen]
  | none =>
    cases hlast : endsRun rest <;> simp [firstBytes, deadBytes, hlast]
    omega

/-- Instructions that were reached have the bytes that they had, and the others idle ones. -/
lemma take_overwrite (hd : Decodes offset code (traced.map (·.2.1))) (hmem : (n, i, f) ∈ traced) :
    ∃ last, ((overwrite code traced).drop (i.offset - offset)).take i.len =
      if f.isSome then (code.drop (i.offset - offset)).take i.len else deadBytes last i.len := by
  induction traced generalizing offset code with
  | nil => simp at hmem
  | cons entry rest ih =>
    obtain ⟨m, j, g⟩ := entry
    obtain ⟨hoff, -, -, -, tail⟩ := Decodes.cons_inv (i := j) hd
    have hsize := length_firstBytes g hd
    rw [overwrite_cons]
    rcases mem_cons.1 hmem with he | hmem
    · obtain ⟨-, rfl, rfl⟩ := by simpa using he
      refine ⟨endsRun rest, ?_⟩
      rw [hoff, Nat.sub_self, drop_zero, drop_zero, take_left' hsize]
      rfl
    · obtain ⟨last, h⟩ := ih tail hmem
      have hge := (tail.decode_of_mem (mem_map_of_mem (f := (·.2.1)) hmem)).1
      dsimp only at hge
      have hsplit : i.offset - offset = j.len + (i.offset - j.next) := by
        simp only [Insn.next] at hge ⊢
        omega
      refine ⟨last, ?_⟩
      rw [hsplit, ← drop_drop, ← drop_drop, drop_left' hsize, h]

/-! ### The instructions and their frames -/

section

variable {b : Body} {p : Progress} {n k : Nat} {i : Insn}

lemma getElem?_traced : (b.traced p)[n]? = b.insns[n]?.map fun i => (n, i, p.frameAt n) := by
  simp only [traced, getElem?_map, getElem?_zipIdx, Array.getElem?_toList, Option.map_map,
    Nat.zero_add]
  rfl

lemma map_traced : (b.traced p).map (·.2.1) = b.insns.toList := by
  simp only [traced, map_map]
  exact zipIdx_map_fst 0 _

lemma mem_traced {f : Option Frame} (hmem : (n, i, f) ∈ b.traced p) :
    b.insns[n]? = some i ∧ p.frameAt n = f := by
  obtain ⟨k, hk⟩ := mem_iff_getElem?.1 hmem
  rw [getElem?_traced] at hk
  obtain ⟨j, hj, he⟩ := Option.map_eq_some_iff.1 hk
  obtain ⟨rfl, rfl, rfl⟩ := by simpa using he
  exact ⟨hj, rfl⟩

lemma length_traced : (b.traced p).length = b.insns.size := by
  simp [traced]

lemma drop_traced (hi : b.insns[k]? = some i) :
    (b.traced p).drop k = (k, i, p.frameAt k) :: (b.traced p).drop (k + 1) := by
  have hlt : k < (b.traced p).length := by
    rw [length_traced]
    exact (Array.getElem?_eq_some_iff.1 hi).1
  rw [drop_eq_getElem_cons hlt]
  have := getElem?_traced (b := b) (p := p) (n := k)
  rw [hi, getElem?_eq_getElem hlt] at this
  rw [Option.some.inj this]

lemma drop_traced_eq_nil (hk : b.insns.size ≤ k) : (b.traced p).drop k = [] :=
  drop_eq_nil_of_le (by rwa [length_traced])

/-- Whether the instruction before one was reached; the first counts as entered. -/
def liveBefore (p : Progress) : Nat → Bool
  | 0 => true
  | n + 1 => (p.frameAt n).isSome

/-- The frame that is written down for an instruction. -/
def recorded (b : Body) (p : Progress) (n : Nat) : Option MapFrame :=
  match b.insns[n]?, p.frameAt n with
  | some i, some f =>
    if p.isTarget n then some ⟨i.offset, compress f.locals, f.stack.reverse⟩ else none
  | some i, none => if liveBefore p n then some ⟨i.offset, [], [.ref throwableClass]⟩ else none
  | none, _ => none

lemma offset_recorded {r : MapFrame} (hi : b.insns[n]? = some i) (hr : b.recorded p n = some r) :
    r.offset = i.offset := by
  unfold recorded at hr
  rw [hi] at hr
  cases hf : p.frameAt n with
  | some f | none =>
    simp only [hf] at hr
    split_ifs at hr
    exact Option.some.inj hr ▸ rfl

/-- The frames that are written down, in the order of instructions. -/
lemma mapFrames_drop (hk : k ≤ b.insns.size) :
    mapFrames p.targets (liveBefore p k) ((b.traced p).drop k) =
    (range' k (b.insns.size - k)).filterMap (b.recorded p) := by
  induction hm : b.insns.size - k generalizing k with
  | zero => simp [drop_traced_eq_nil (by omega : b.insns.size ≤ k), mapFrames]
  | succ m ih =>
    obtain ⟨i, hi⟩ : ∃ i, b.insns[k]? = some i := ⟨_, Array.getElem?_eq_getElem (by omega)⟩
    have ih := ih (k := k + 1) (by omega) (by omega)
    rw [drop_traced hi, range'_succ, filterMap_cons, ← ih]
    simp only [recorded, hi]
    cases hf : p.frameAt k with
    | some f =>
      simp only [mapFrames, liveBefore, hf, Option.isSome_some]
      split_ifs with ht <;> simp_all [Progress.isTarget]
    | none =>
      simp only [mapFrames, liveBefore, hf, Option.isSome_none]
      split_ifs <;> simp_all

lemma mapFrames_eq : mapFrames p.targets true (b.traced p) =
    (range b.insns.size).filterMap (b.recorded p) := by
  simpa [range_eq_range', liveBefore] using mapFrames_drop (b := b) (p := p) (Nat.zero_le _)

end

/-- Instructions that were reached are still there. -/
lemma mem_rewritten {f : Frame} (hmem : (n, i, some f) ∈ traced) : i ∈ rewritten traced := by
  induction traced with
  | nil => simp at hmem
  | cons entry rest ih =>
    obtain ⟨m, j, g⟩ := entry
    rcases mem_cons.1 hmem with he | hrest
    · obtain ⟨-, rfl, rfl⟩ := by simpa using he
      exact mem_cons_self
    · cases g with
      | none => exact mem_append_right _ (ih hrest)
      | some g => exact mem_cons_of_mem _ (ih hrest)

/-- Some instruction stands where one was. -/
lemma exists_mem_rewritten (hpos : 0 < i.len) (hmem : (n, i, f) ∈ traced) :
    ∃ j ∈ rewritten traced, j.offset = i.offset := by
  induction traced with
  | nil => simp at hmem
  | cons entry rest ih =>
    obtain ⟨m, k, g⟩ := entry
    rcases mem_cons.1 hmem with he | hrest
    · obtain ⟨-, rfl, rfl⟩ := by simpa using he
      cases f with
      | some f => exact ⟨i, mem_cons_self, rfl⟩
      | none =>
        obtain ⟨len, hlen⟩ := Nat.exists_eq_add_one_of_ne_zero hpos.ne'
        rw [rewritten, hlen]
        cases len <;> exact ⟨_, mem_append_left _ mem_cons_self, rfl⟩
    · obtain ⟨j, hj, he⟩ := ih hrest
      cases g with
      | none => exact ⟨j, mem_append_right _ hj, he⟩
      | some g => exact ⟨j, mem_cons_of_mem _ hj, he⟩

/-! ### Protected ranges -/

/-- A byte of an instruction that was reached and that a range covers. -/
def LiveAt (h : ExceptionEntry) (traced : List (Nat × Insn × Option Frame)) (offset : Nat) : Prop :=
  ∃ n i f, (n, i, some f) ∈ traced ∧ i.offset ≤ offset ∧ offset < i.next ∧ h.covers i.offset

lemma LiveAt.cons (hl : LiveAt h traced offset)
    (entry : Nat × Insn × Option Frame) : LiveAt h (entry :: traced) offset := by
  obtain ⟨n, i, f, hmem, hrest⟩ := hl
  exact ⟨n, i, f, mem_cons_of_mem _ hmem, hrest⟩

lemma liveRuns_cons (h : ExceptionEntry) (run : Option Nat) (n : Nat) (i : Insn) (f : Option Frame)
    (rest : List (Nat × Insn × Option Frame)) :
    liveRuns h run ((n, i, f) :: rest) = (match run, h.covers i.offset && f.isSome with
      | none, true => liveRuns h (some i.offset) rest
      | some start, false =>
        { h with start := UInt16.ofNat start, stop := UInt16.ofNat i.offset } :: liveRuns h
        none rest
      | run, _ => liveRuns h run rest) := by
  cases run <;> rfl

lemma toNat_word (hn : n ≤ 65535) : (UInt16.ofNat n).toNat = n := by
  rw [UInt16.toNat_ofNat']
  omega

/-- Where the part begins that is open behind an instruction. -/
def openAt (h : ExceptionEntry) (run : Option Nat) (i : Insn) (f : Option Frame) : Option Nat :=
  if h.covers i.offset && f.isSome then some (run.getD i.offset) else none

/-- The part that ends before an instruction. -/
def closed (h : ExceptionEntry) (run : Option Nat) (i : Insn) (f : Option Frame) :
    List ExceptionEntry :=
  if h.covers i.offset && f.isSome then []
  else run.toList.map fun start =>
    { h with start := UInt16.ofNat start, stop := UInt16.ofNat i.offset }

lemma liveRuns_eq_closed_append (h : ExceptionEntry) (run : Option Nat) (n : Nat) (i : Insn)
    (f : Option Frame) (rest : List (Nat × Insn × Option Frame)) :
    liveRuns h run ((n, i, f) :: rest) =
    closed h run i f ++ liveRuns h (openAt h run i f) rest := by
  rw [liveRuns_cons, closed, openAt]
  cases h.covers i.offset && f.isSome <;> cases run <;> rfl

lemma mem_openAt {run : Option Nat} {start : Nat} : start ∈ openAt h run i f ↔
    (h.covers i.offset && f.isSome) = true ∧ start = run.getD i.offset := by
  unfold openAt
  split_ifs with hlive <;> simp [hlive, eq_comm]

lemma lt_of_mem_openAt {run : Option Nat} (hrun : ∀ start ∈ run, start < i.offset)
    (hcur : i.offset < i.next) : ∀ start ∈ openAt h run i f, start < i.next := by
  intro start hstart
  obtain ⟨-, rfl⟩ := mem_openAt.1 hstart
  cases run with
  | none => exact hcur
  | some start => exact (hrun start rfl).trans hcur

/-- The parts of a range have its handler, cover only what was reached, and cover something. The
part that is open begins at `run`. -/
lemma mem_liveRuns {e : ExceptionEntry} {run : Option Nat} {cur : Nat}
    (hd : Decodes cur code (traced.map (·.2.1))) (hend : cur + code.length ≤ 65536)
    (hrun : ∀ start ∈ run, start < cur) (he : e ∈ liveRuns h run traced) :
    (e.handler = h.handler ∧ e.catchType = h.catchType) ∧
    (∀ offset < cur + code.length, e.covers offset →
    (∃ start ∈ run, start ≤ offset ∧ offset < cur) ∨ LiveAt h traced offset) ∧
    (run = none → ∃ offset, LiveAt h traced offset) := by
  induction traced generalizing run cur code with
  | nil =>
    cases run with
    | none => simp [liveRuns] at he
    | some start =>
      obtain rfl : e = { h with start := UInt16.ofNat start } := by simpa [liveRuns] using he
      have hstart := hrun start rfl
      cases hd
      refine ⟨⟨rfl, rfl⟩, fun offset hoff hc => .inl ⟨start, rfl, ?_, by simpa using hoff⟩, nofun⟩
      simp only [ExceptionEntry.covers, toNat_word (by omega : start ≤ 65535), Bool.and_eq_true,
        decide_eq_true_eq] at hc
      exact hc.1
  | cons entry rest ih =>
    obtain ⟨n, i, f⟩ := entry
    obtain ⟨rfl, hlen, hcur, hnext, tail⟩ := Decodes.cons_inv (i := i) hd
    rw [← hnext] at hend ⊢
    rw [liveRuns_eq_closed_append] at he
    have hsome (hlive : (h.covers i.offset && f.isSome) = true) {offset : Nat}
        (hge : i.offset ≤ offset) (hlt : offset < i.next) :
          LiveAt h ((n, i, f) :: rest) offset := by
      obtain ⟨hc, hf⟩ := Bool.and_eq_true_iff.1 hlive
      obtain ⟨f, rfl⟩ := Option.isSome_iff_exists.1 hf
      exact ⟨n, i, f, mem_cons_self, hge, hlt, hc⟩
    rcases mem_append.1 he with he | he
    · rw [closed] at he
      split_ifs at he with hlive
      · cases he
      obtain ⟨start, hstart, rfl⟩ := mem_map.1 he
      obtain rfl : run = some start := by simpa using hstart
      have hstart := hrun start rfl
      refine ⟨⟨rfl, rfl⟩, fun offset _ hc => .inl ⟨start, rfl, ?_⟩, nofun⟩
      simpa only [ExceptionEntry.covers, toNat_word (by omega : start ≤ 65535),
        toNat_word (by omega : i.offset ≤ 65535), Bool.and_eq_true, decide_eq_true_eq] using hc
    · obtain ⟨hsame, hcov, hex⟩ := ih tail hend (lt_of_mem_openAt hrun hcur) he
      refine ⟨hsame, fun offset hlt hc => ?_, fun _ => ?_⟩
      · rcases hcov offset hlt hc with ⟨start, hstart, hge, hlt'⟩ | hl
        · obtain ⟨hlive, rfl⟩ := mem_openAt.1 hstart
          rcases Nat.lt_or_ge offset i.offset with hbefore | hfrom
          · cases run with
            | none => exact absurd hge (Nat.not_le.2 hbefore)
            | some start => exact .inl ⟨start, rfl, hge, hbefore⟩
          · exact .inr (hsome hlive hfrom hlt')
        · exact .inr (hl.cons _)
      · cases hlive : h.covers i.offset && f.isSome with
        | true => exact ⟨i.offset, hsome hlive le_rfl hcur⟩
        | false =>
          obtain ⟨offset, hl⟩ := hex (by simp [openAt, hlive])
          exact ⟨offset, hl.cons _⟩

/-- The handlers of the rows that cover an offset, in order, and what they catch. -/
def covering (hs : List ExceptionEntry) (offset : Nat) : List (UInt16 × UInt16) :=
  (hs.filter (·.covers offset)).map fun e => (e.handler, e.catchType)

@[simp] lemma covering_nil (offset : Nat) : covering [] offset = [] := rfl

lemma covering_cons (e : ExceptionEntry) (es : List ExceptionEntry) (offset : Nat) :
    covering (e :: es) offset =
      if e.covers offset then (e.handler, e.catchType) :: covering es offset else covering es
      offset := by
  unfold covering
  rw [filter_cons]
  split <;> rfl

lemma covering_append (es es' : List ExceptionEntry) (offset : Nat) :
    covering (es ++ es') offset = covering es offset ++ covering es' offset := by
  simp [covering]

section

variable {h : ExceptionEntry} {run : Option Nat} {cur offset : Nat} {code : Bytes}

/-- A part that has ended does not cover what comes then. -/
lemma covering_closed (hle : i.offset ≤ offset) (hword : i.offset ≤ 65535) :
    covering (closed h run i f) offset = [] := by
  rw [closed]
  split_ifs
  · rfl
  · cases run with
    | none => rfl
    | some start =>
      simp [covering_cons, ExceptionEntry.covers, toNat_word hword, Nat.not_lt.2 hle]

/-- The parts of a range behind an offset do not cover it, apart from the one that is open. -/
lemma covering_liveRuns_of_lt (hd : Decodes cur code (traced.map (·.2.1)))
    (hend : cur + code.length ≤ 65536) (hrun : ∀ start ∈ run, start < cur)
    (hopen : ∀ start ∈ run, start ≤ offset → h.covers offset) (hlt : offset < cur) :
    covering (liveRuns h run traced) offset =
      if ∃ start ∈ run, start ≤ offset then [(h.handler, h.catchType)] else [] := by
  induction traced generalizing run cur code with
  | nil =>
    cases run with
    | none => simp [liveRuns]
    | some start =>
      have hstart := hrun start rfl
      have hopen := hopen start rfl
      simp only [ExceptionEntry.covers, Bool.and_eq_true, decide_eq_true_eq] at hopen
      by_cases hle : start ≤ offset <;>
        simp [liveRuns, covering_cons, ExceptionEntry.covers, toNat_word (by omega : start ≤ 65535),
          hle, hopen]
  | cons entry rest ih =>
    obtain ⟨n, i, f⟩ := entry
    obtain ⟨rfl, hlen, hcur, hnext, tail⟩ := Decodes.cons_inv (i := i) hd
    rw [← hnext] at hend
    have hopen' (start : Nat) (hstart : start ∈ openAt h run i f) (hle : start ≤ offset) :
        h.covers offset := by
      obtain ⟨-, rfl⟩ := mem_openAt.1 hstart
      cases run with
      | none => exact absurd hle (Nat.not_le.2 hlt)
      | some start => exact hopen start rfl hle
    rw [liveRuns_eq_closed_append, covering_append,
      ih tail hend (lt_of_mem_openAt hrun hcur) hopen' (hlt.trans hcur), openAt, closed]
    cases h.covers i.offset && f.isSome <;> cases run with
    | none => simp [hlt]
    | some start =>
      have hstart := hrun start rfl
      simp [covering_cons, ExceptionEntry.covers, toNat_word (by omega : start ≤ 65535),
        toNat_word (by omega : i.offset ≤ 65535), hlt]

/-- A range covers an instruction that was reached through one of its parts, and no other at all. -/
lemma covering_liveRuns (hd : Decodes cur code (traced.map (·.2.1)))
    (hend : cur + code.length ≤ 65536) (hrun : ∀ start ∈ run, start < cur) {n : Nat} {i : Insn}
    {f : Option Frame} (hmem : (n, i, f) ∈ traced) : covering (liveRuns h run traced) i.offset =
      if h.covers i.offset && f.isSome then [(h.handler, h.catchType)] else [] := by
  induction traced generalizing run cur code with
  | nil => simp at hmem
  | cons entry rest ih =>
    obtain ⟨m, j, g⟩ := entry
    obtain ⟨rfl, hlen, hcur, hnext, tail⟩ := Decodes.cons_inv (i := j) hd
    rw [← hnext] at hend
    have hopen := lt_of_mem_openAt (h := h) (f := g) hrun hcur
    rw [liveRuns_eq_closed_append, covering_append]
    rcases mem_cons.1 hmem with he | hmem
    · -- Here the part that is open, or a new one, covers the instruction.
      obtain ⟨-, rfl, rfl⟩ := by simpa using he
      have hcovers (start : Nat) (hstart : start ∈ openAt h run i f) (_ : start ≤ i.offset) :
          h.covers i.offset :=
        (Bool.and_eq_true_iff.1 (mem_openAt.1 hstart).1).1
      have hbegun : run.getD i.offset ≤ i.offset := by
        cases run with
        | none => exact le_rfl
        | some start => exact (hrun start rfl).le
      rw [covering_closed le_rfl (by omega), covering_liveRuns_of_lt tail hend hopen hcovers hcur,
        nil_append]
      simp only [mem_openAt, and_assoc, exists_and_left, exists_eq_left, hbegun, and_true]
    · have hge := (tail.decode_of_mem (mem_map_of_mem (f := (·.2.1)) hmem)).1
      dsimp only at hge
      rw [covering_closed (by omega) (by omega), ih tail hend hopen hmem, nil_append]

end

end Body

end Classwright
