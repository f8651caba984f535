import Classwright.Bytecode.Insn
import Classwright.Proofs.Outcome

/-!
Instructions of a byte string.

An instruction is determined by the bytes it takes: `decode_prefix` cuts them off the code and puts
them in front of any other. `Decodes` is decoding of a whole method as a relation, one instruction
after another, and `decodeAll_eq_ok_iff` ties it to the decoder. `decodeAt_eq_cut_iff` says at which
offsets a jump table is cut off, and `tiles_of_decodeAll` that the instructions of a method cover
its code.
-/

namespace Classwright

open List

namespace Bytes

variable {rest : Bytes}

lemma split?_eq_some_iff {n : Nat} {bs front : Bytes} :
    split? n bs = some (front, rest) ↔ bs = front ++ rest ∧ front.length = n := by
  simp only [split?, splitAt_eq]
  constructor
  · intro h
    split at h
    · next hn =>
      obtain ⟨rfl, rfl⟩ := by simpa using h
      exact ⟨(take_append_drop n bs).symm, hn⟩
    · simp at h
  · rintro ⟨rfl, rfl⟩
    simp

/-- A number is read from the four bytes in front. -/
lemma takeInt32?_prefix {bs : Bytes} {v : Int} (h : takeInt32? bs = some (v, rest)) :
    ∃ front : Bytes, front.length = 4 ∧ bs = front ++ rest ∧
    ∀ r, takeInt32? (front ++ r) = some (v, r) := by
  match bs with
  | a :: b :: c :: d :: bs =>
    obtain ⟨rfl, rfl⟩ := by simpa [takeInt32?] using h
    exact ⟨[a, b, c, d], rfl, rfl, fun r => rfl⟩
  | [] | [_] | [_, _] | [_, _, _] => simp [takeInt32?] at h

lemma takeInt32?_eq_none_iff {bs : Bytes} : takeInt32? bs = none ↔ bs.length < 4 := by
  match bs with
  | [] | [_] | [_, _] | [_, _, _] => simp [takeInt32?]
  | a :: b :: c :: d :: bs => simp [takeInt32?]

lemma takeInt32s?_prefix {n : Nat} {bs : Bytes} {vs : List Int}
    (h : takeInt32s? n bs = some (vs, rest)) :
    ∃ front : Bytes, front.length = 4 * n ∧ bs = front ++ rest ∧
    ∀ r, takeInt32s? n (front ++ r) = some (vs, r) := by
  induction n generalizing bs vs with
  | zero =>
    obtain ⟨rfl, rfl⟩ := by simpa [takeInt32s?] using h
    exact ⟨[], rfl, rfl, fun r => rfl⟩
  | succ n ih =>
    simp only [takeInt32s?, Option.bind_eq_bind, Option.bind_eq_some_iff, Prod.exists,
      Option.pure_def, Option.some.injEq, Prod.mk.injEq] at h
    obtain ⟨v, bs', hv, vs', bs'', hvs, rfl, rfl⟩ := h
    obtain ⟨front, hlen, rfl, hr⟩ := takeInt32?_prefix hv
    obtain ⟨front', hlen', rfl, hr'⟩ := ih hvs
    refine ⟨front ++ front', by simp [hlen, hlen']; omega, by simp, fun r => ?_⟩
    simp [takeInt32s?, hr, hr']

end Bytes

namespace Insn

/-! ### One instruction -/

variable {insn i : Insn} {bs code : Bytes} {offset : Nat} {is : List Insn}

/-- An instruction whose operands are read from the bytes in front, behind `n` others. A prefix
gives way to the opcode after it. -/
def ReadsFront (dec : Bytes → Except DecodeError Insn) (insn : Insn) (n : Nat) (bs : Bytes)
    (i : Insn) : Prop :=
  ∃ front rest : Bytes, bs = front ++ rest ∧ i.len = n + front.length ∧ i.offset = insn.offset ∧
    (i.op = insn.op ∨ i.wide) ∧ ∀ r, dec (front ++ r) = .ok i

lemma decodeTable_prefix {low : Int} (h : insn.decodeTable low bs = .ok i) :
    ReadsFront (insn.decodeTable low) insn (tableStart insn.offset + 8) bs i := by
  unfold decodeTable at h
  split at h
  · next high bs₁ hhigh =>
    obtain ⟨front₁, hlen₁, rfl, hr₁⟩ := Bytes.takeInt32?_prefix hhigh
    split at h
    · simp [Except.bind_eq_ok_iff] at h
    · next hb =>
      dsimp only at h
      split at h
      · next distances bs₂ hd =>
        obtain ⟨front₂, hlen₂, rfl, hr₂⟩ := Bytes.takeInt32s?_prefix hd
        obtain rfl := Except.pure_eq_ok_iff.1 h
        refine ⟨front₁ ++ front₂, bs₂, by simp, by simp; omega, rfl, .inl rfl, fun r => ?_⟩
        simp only [decodeTable, append_assoc, hr₁, hr₂, hb, if_false]
        rfl
      · simp at h
  · simp at h

lemma decodeLookup_prefix {count : Int} (h : insn.decodeLookup count bs = .ok i) :
    ReadsFront (insn.decodeLookup count) insn (tableStart insn.offset + 8) bs i := by
  unfold decodeLookup at h
  split at h
  · simp [Except.bind_eq_ok_iff] at h
  · next hc =>
    dsimp only at h
    split at h
    · next pairs bs₁ hp =>
      obtain ⟨front, hlen, rfl, hr⟩ := Bytes.takeInt32s?_prefix hp
      obtain rfl := Except.pure_eq_ok_iff.1 h
      refine ⟨front, bs₁, rfl, by simp; omega, rfl, .inl rfl, fun r => ?_⟩
      simp only [decodeLookup, hr, hc, if_false]
      rfl
    · simp at h

lemma decodeSwitch_prefix {dense : Bool} (h : insn.decodeSwitch dense bs = .ok i) :
    ReadsFront (insn.decodeSwitch dense) insn 1 bs i := by
  unfold decodeSwitch at h
  split at h
  · next distance bs₁ hdistance =>
    obtain ⟨front₁, hlen₁, hdrop, hr₁⟩ := Bytes.takeInt32?_prefix hdistance
    split at h
    · next first bs₂ hfirst =>
      obtain ⟨front₂, hlen₂, rfl, hr₂⟩ := Bytes.takeInt32?_prefix hfirst
      -- The padding stands before the default.
      set pad := bs.take (tableStart insn.offset - 1) with hpad
      have hbs : bs = pad ++ (front₁ ++ (front₂ ++ bs₂)) := by
        rw [← hdrop, hpad, take_append_drop]
      have hplen : pad.length = tableStart insn.offset - 1 := by
        have hlong : tableStart insn.offset - 1 < bs.length := by
          by_contra hge
          rw [drop_eq_nil_of_le (by omega)] at hdrop
          simp at hdrop
          simp [hdrop] at hlen₁
        simp [hpad]
        omega
      have hstart : 1 ≤ tableStart insn.offset := by unfold tableStart; omega
      dsimp only at h
      split at h
      · next hdense =>
        obtain ⟨front₃, rest, rfl, hlen, hoff, hop, hr₃⟩ := decodeTable_prefix h
        refine ⟨pad ++ (front₁ ++ (front₂ ++ front₃)), rest, by simpa using hbs,
          by simp [hlen]; omega, hoff, hop, fun r => ?_⟩
        simp only [decodeSwitch, append_assoc, ← hplen, drop_left, hr₁, hr₂, hdense,
          if_true, hr₃]
      · next hdense =>
        obtain ⟨front₃, rest, rfl, hlen, hoff, hop, hr₃⟩ := decodeLookup_prefix h
        refine ⟨pad ++ (front₁ ++ (front₂ ++ front₃)), rest, by simpa using hbs,
          by simp [hlen]; omega, hoff, hop, fun r => ?_⟩
        simp only [decodeSwitch, append_assoc, ← hplen, drop_left, hr₁, hr₂, hdense,
          hr₃]
        rfl
    · simp at h
  · simp at h

lemma decodeWide_prefix (h : insn.decodeWide bs = .ok i) :
    ReadsFront insn.decodeWide insn 1 bs i := by
  unfold decodeWide at h
  split at h
  · next op a b bs =>
    dsimp only at h
    split at h
    · next hop =>
      split at h
      · next c d rest =>
        obtain rfl := Except.ok.inj h
        exact ⟨[op, a, b, c, d], rest, rfl, rfl, rfl, .inr rfl, fun r => if_pos hop⟩
      · simp at h
    · next hop =>
      obtain rfl := Except.ok.inj h
      exact ⟨[op, a, b], bs, rfl, rfl, rfl, .inr rfl, fun r => if_neg hop⟩
  · simp at h

lemma withOperands_kept (insn : Insn) (a : Action) (bs : Bytes) :
    (insn.withOperands a bs).len = insn.len ∧ (insn.withOperands a bs).offset = insn.offset ∧
    (insn.withOperands a bs).op = insn.op := by
  unfold withOperands
  split <;> first | exact ⟨rfl, rfl, rfl⟩ | (split <;> exact ⟨rfl, rfl, rfl⟩)

/-- An instruction takes at least its opcode, and is read from no more than the bytes it takes. Its
opcode is one of the table unless it stands behind a prefix. -/
lemma decode_prefix (h : decode offset code = .ok i) :
    ∃ front rest : Bytes, code = front ++ rest ∧ i.len = front.length ∧ 0 < i.len ∧
    i.offset = offset ∧ (i.op.action?.isSome ∨ i.wide) ∧
    ∀ r, decode offset (front ++ r) = .ok i := by
  unfold decode at h
  split at h
  · next byte operands =>
    dsimp only at h
    split at h
    · next action haction =>
      suffices hbehind : ReadsFront (fun bs => decode offset (byte :: bs))
        { offset, len := 1, op := ⟨byte⟩ } 1
          operands i by
        obtain ⟨front, rest, rfl, hlen, hoff, hop, hr⟩ := hbehind
        refine ⟨byte :: front, rest, rfl, by simp [hlen]; omega, by omega, hoff,
          hop.imp_left fun h => ?_, hr⟩
        simp [h, haction]
      unfold decode
      simp only [haction]
      split at h
      · exact decodeSwitch_prefix h
      · exact decodeSwitch_prefix h
      · exact decodeWide_prefix h
      · next hn₁ hn₂ hn₃ =>
        split at h
        · next front rest hsplit =>
          obtain ⟨rfl, hlen⟩ := Bytes.split?_eq_some_iff.1 hsplit
          obtain rfl := Except.pure_eq_ok_iff.1 h
          refine ⟨front, rest, rfl, hlen ▸ (withOperands_kept _ _ _).1,
            (withOperands_kept _ _ _).2.1, .inl (withOperands_kept _ _ _).2.2, fun r => ?_⟩
          have hr : Bytes.split? _ (front ++ r) = some (front, r) :=
            Bytes.split?_eq_some_iff.2 ⟨rfl, hlen⟩
          simp only [hr]
          rfl
        · simp at h
    · simp at h
  · simp at h

/-- An instruction of fixed length is decoded from its opcode and operands. -/
lemma decode_fixed {a : Action} {operands : Bytes} (ha : a.operandLength = some operands.length)
    (rest : Bytes) : decode offset (a.opcode.byte :: (operands ++ rest)) =
    .ok (withOperands { offset, len := 1 + operands.length, op := a.opcode } a operands) := by
  have hop : Opcode.action? ⟨a.opcode.byte⟩ = some a := Opcode.action?_opcode a
  have hsplit : Bytes.split? operands.length (operands ++ rest) = some (operands, rest) :=
    Bytes.split?_eq_some_iff.2 ⟨rfl, rfl⟩
  unfold decode
  simp only [hop, ha]
  split
  · simp [Action.operandLength] at ha
  · simp [Action.operandLength] at ha
  · simp [Action.operandLength] at ha
  · simp only [Option.getD_some, hsplit]
    rfl

section

variable {offset : Nat} {code : Bytes} {i : Insn} (h : decode offset code = .ok i)

include h

lemma offset_of_decode : i.offset = offset := by
  obtain ⟨_, _, _, _, _, hoff, _⟩ := decode_prefix h
  exact hoff

lemma len_pos_of_decode : 0 < i.len := by
  obtain ⟨_, _, _, _, hpos, _⟩ := decode_prefix h
  exact hpos

lemma len_le_of_decode : i.len ≤ code.length := by
  obtain ⟨front, rest, rfl, hlen, _⟩ := decode_prefix h
  simp [hlen]

/-- The opcode of an instruction is assigned, or stands behind a prefix, where it may be any. -/
theorem assigned_of_decode : i.op.action?.isSome ∨ i.wide := by
  obtain ⟨_, _, _, _, _, _, hop, _⟩ := decode_prefix h
  exact hop

/-- The bytes after an instruction do not matter to it. -/
lemma decode_take_append (r : Bytes) : decode offset (code.take i.len ++ r) = .ok i := by
  obtain ⟨front, rest, rfl, hlen, _, _, _, hr⟩ := decode_prefix h
  rw [hlen, take_left]
  exact hr r

end

/-! ### Whole methods -/

/-- The code that starts at an offset is a sequence of instructions. -/
inductive Decodes : Nat → Bytes → List Insn → Prop
  | nil (offset : Nat) : Decodes offset [] []
  | cons {offset : Nat} {code : Bytes} {i : Insn} {is : List Insn}
      (head : decode offset code = .ok i) (tail : Decodes i.next (code.drop i.len) is) :
      Decodes offset code (i :: is)

lemma Decodes.eq_nil (h : Decodes offset [] is) : is = [] := by
  cases h with
  | nil => rfl
  | cons head _ =>
    have hle := len_le_of_decode head
    have hpos := len_pos_of_decode head
    simp only [length_nil] at hle
    omega

lemma decodeOnto_eq_ok_iff {done : List Insn} {fuel : Nat} (hfuel : code.length ≤ fuel) :
    decodeOnto done fuel offset code = .ok is ↔
    ∃ rest, is = done.reverse ++ rest ∧ Decodes offset code rest := by
  induction fuel generalizing done offset code with
  | zero =>
    obtain rfl : code = [] := length_eq_zero_iff.1 (by omega)
    simp only [decodeOnto, Except.ok.injEq]
    constructor
    · rintro rfl
      exact ⟨[], by simp, .nil _⟩
    · rintro ⟨rest, rfl, hrest⟩
      simp [hrest.eq_nil]
  | succ fuel ih =>
    match code with
    | [] =>
      simp only [decodeOnto, Except.ok.injEq]
      constructor
      · rintro rfl
        exact ⟨[], by simp, .nil _⟩
      · rintro ⟨rest, rfl, hrest⟩
        simp [hrest.eq_nil]
    | byte :: operands =>
      simp only [decodeOnto, Except.bind_eq_ok_iff]
      constructor
      · rintro ⟨i, hi, h⟩
        have hpos := len_pos_of_decode hi
        obtain ⟨rest, rfl, hrest⟩ := (ih (by simp at hfuel ⊢; omega)).1 h
        exact ⟨i :: rest, by simp, .cons hi hrest⟩
      · rintro ⟨rest, rfl, hrest⟩
        cases hrest with
        | @cons _ _ i is head tail =>
          have hpos := len_pos_of_decode head
          exact ⟨i, head, (ih (by simp at hfuel ⊢; omega)).2 ⟨is, by simp, tail⟩⟩

/-- All instructions of a method. -/
lemma decodeAll_eq_ok_iff : decodeAll code = .ok is ↔ Decodes 0 code is := by
  simp [decodeAll, decodeOnto_eq_ok_iff (Nat.le_refl _)]

namespace Decodes

variable {offset : Nat} {code : Bytes} {is : List Insn} {i : Insn}

/-- The first instruction, and where the others start. -/
lemma cons_inv (h : Decodes offset code (i :: is)) :
    i.offset = offset ∧ i.len ≤ code.length ∧ offset < i.next ∧
    i.next + (code.drop i.len).length = offset + code.length ∧
    Decodes i.next (code.drop i.len) is := by
  cases h with
  | cons head tail =>
    have hoff := offset_of_decode head
    have hlen := len_le_of_decode head
    have hpos := len_pos_of_decode head
    refine ⟨hoff, hlen, ?_, ?_, tail⟩ <;> simp only [next, length_drop] <;> omega

variable (h : Decodes offset code is)

include h

lemma ne_nil (hne : code ≠ []) : is ≠ [] := by
  cases h with
  | nil => exact absurd rfl hne
  | cons _ _ => simp

/-- The instructions stand where they were decoded. -/
lemma decode_of_mem (hi : i ∈ is) : offset ≤ i.offset ∧ i.next ≤ offset + code.length ∧
      decode i.offset (code.drop (i.offset - offset)) = .ok i := by
  induction h with
  | nil => simp at hi
  | @cons offset code j is head tail ih =>
    have hoff := offset_of_decode head
    have hle := len_le_of_decode head
    rcases mem_cons.1 hi with rfl | hi
    · refine ⟨hoff.ge, by simp [next, hoff]; omega, ?_⟩
      simpa [hoff] using head
    · obtain ⟨hge, hend, hdec⟩ := ih hi
      simp only [next, length_drop, drop_drop] at hge hend hdec
      refine ⟨by omega, by simp only [next]; omega, ?_⟩
      rwa [show j.len + (i.offset - (j.offset + j.len)) = i.offset - offset by omega] at hdec

/-- Code behind code is decoded from where the first ends. -/
lemma append {code' : Bytes} {is' : List Insn} (h' : Decodes (offset + code.length) code' is') :
    Decodes offset (code ++ code') (is ++ is') := by
  induction h with
  | nil => simpa using h'
  | @cons offset code i is head tail ih =>
    obtain ⟨front, rest, rfl, hlen, -, hoff, -, hr⟩ := decode_prefix head
    simp only [hlen, drop_left'] at tail ih
    refine .cons (by rw [append_assoc]; exact hr _) ?_
    rw [hlen, append_assoc, drop_left']
    · refine ih ?_
      rw [next, hoff, hlen]
      simpa [Nat.add_assoc] using h'
    · rfl

/-- There is one instruction at an offset. -/
lemma find?_offset (hi : i ∈ is) : is.find? (·.offset == i.offset) = some i := by
  cases hfind : is.find? (·.offset == i.offset) with
  | none =>
    rw [find?_eq_none] at hfind
    exact absurd (by simp) (hfind i hi)
  | some j =>
    have hoff : j.offset = i.offset := by simpa using find?_some hfind
    have hj := (h.decode_of_mem (mem_of_find?_eq_some hfind)).2.2
    rw [hoff, (h.decode_of_mem hi).2.2] at hj
    rw [Except.ok.inj hj]

/-- Each instruction begins where the one before it ends. -/
lemma pairwise_next_le : is.Pairwise fun i j => i.next ≤ j.offset := by
  induction h with
  | nil => exact .nil
  | cons head tail ih => exact .cons (fun j hj => (tail.decode_of_mem hj).1) ih

/-- The instruction behind another stands at its end. -/
lemma offset_succ {n : Nat} {j : Insn} (hi : is[n]? = some i) (hj : is[n + 1]? = some j) :
    j.offset = i.next := by
  induction h generalizing n with
  | nil => simp at hi
  | @cons offset code k is head tail ih =>
    cases n with
    | succ n => exact ih (by simpa using hi) (by simpa using hj)
    | zero =>
      obtain rfl : k = i := by simpa using hi
      generalize code.drop k.len = rest at tail
      cases tail with
      | nil => simp at hj
      | cons head' _ =>
        obtain rfl : _ = j := Option.some.inj hj
        exact offset_of_decode head'

lemma len_pos_of_mem (hi : i ∈ is) : 0 < i.len :=
  len_pos_of_decode (h.decode_of_mem hi).2.2

/-- Offsets ascend. -/
lemma pairwise_offset_lt : is.Pairwise fun i j => i.offset < j.offset := by
  refine (h.pairwise_next_le.imp_of_mem fun hi _ hle => ?_)
  have hpos := h.len_pos_of_mem hi
  simp only [next] at hle
  omega

/-- The instructions of code are determined by it. -/
lemma unique {js : List Insn} (h' : Decodes offset code js) : is = js := by
  induction h generalizing js with
  | nil => exact h'.eq_nil.symm
  | @cons offset code i is head tail ih =>
    cases h' with
    | nil => exact absurd (Decodes.cons head tail).eq_nil (by simp)
    | cons head' tail' =>
      obtain rfl := Except.ok.inj (head.symm.trans head')
      rw [ih tail']

end Decodes

/-! ### Jump tables that are cut -/

lemma decodeTable_eq_cut_iff {low : Int} :
    insn.decodeTable low bs = .error .cut ↔ bs.length < 4 := by
  rw [← Bytes.takeInt32?_eq_none_iff]
  unfold decodeTable
  rcases Bytes.takeInt32? bs with - | ⟨high, rest⟩
  · simp [throw, throwThe, MonadExceptOf.throw]
  · dsimp only
    split_ifs
    · simp [throw, throwThe, MonadExceptOf.throw, bind, Except.bind]
    · split <;> simp [throw, throwThe, MonadExceptOf.throw, pure, Except.pure]

lemma decodeLookup_ne_cut {count : Int} : insn.decodeLookup count bs ≠ .error .cut := by
  unfold decodeLookup
  split_ifs
  · simp [throw, throwThe, MonadExceptOf.throw, bind, Except.bind]
  · dsimp only
    split <;> simp [throw, throwThe, MonadExceptOf.throw, pure, Except.pure]

/-- A dense table is cut if its lower bound is there and its upper bound is not. -/
lemma decodeSwitch_eq_cut_iff {dense : Bool} : insn.decodeSwitch dense bs = .error .cut ↔
    dense ∧ tableStart insn.offset + 7 ≤ bs.length ∧ bs.length < tableStart insn.offset + 11 := by
  have hstart : 1 ≤ tableStart insn.offset := by unfold tableStart; omega
  unfold decodeSwitch
  rcases hd : Bytes.takeInt32? (bs.drop (tableStart insn.offset - 1)) with - | ⟨distance, rest⟩
  · have hlen := Bytes.takeInt32?_eq_none_iff.1 hd
    simp only [length_drop] at hlen
    simp only [throw, throwThe, MonadExceptOf.throw, Except.error.injEq, reduceCtorEq, false_iff]
    omega
  · obtain ⟨front, hfront, hdrop, -⟩ := Bytes.takeInt32?_prefix hd
    have hlen := congrArg length hdrop
    simp only [length_drop, length_append] at hlen
    dsimp only
    rcases hf : Bytes.takeInt32? rest with - | ⟨first, rest'⟩
    · have hlen' := Bytes.takeInt32?_eq_none_iff.1 hf
      simp only [throw, throwThe, MonadExceptOf.throw, Except.error.injEq, reduceCtorEq, false_iff]
      omega
    · obtain ⟨front', hfront', rfl, -⟩ := Bytes.takeInt32?_prefix hf
      rw [length_append] at hlen
      cases dense with
      | false => simp [decodeLookup_ne_cut]
      | true =>
        simp only [if_true, decodeTable_eq_cut_iff, true_and]
        omega

lemma decodeWide_ne_cut : insn.decodeWide bs ≠ .error .cut := by
  unfold decodeWide
  split
  · dsimp only
    split_ifs
    · split <;> simp
    · simp
  · simp

lemma decode_eq_cut_iff : decode offset code = .error .cut ↔
    code.head? = some Action.tableSwitch.opcode.byte ∧ tableStart offset + 8 ≤ code.length ∧
      code.length < tableStart offset + 12 := by
  cases code with
  | nil => exact iff_of_false (by rintro ⟨⟩) (by rintro ⟨⟨⟩, -⟩)
  | cons byte operands =>
    have hbyte : byte = Action.tableSwitch.opcode.byte ↔
        Opcode.action? ⟨byte⟩ = some .tableSwitch := by
      refine ⟨?_, fun h => congrArg Opcode.byte (Opcode.eq_opcode_of_action? h)⟩
      rintro rfl
      exact Opcode.action?_opcode .tableSwitch
    simp only [head?_cons, Option.some.injEq, length_cons, hbyte]
    unfold decode
    dsimp only
    cases ha : Opcode.action? ⟨byte⟩ with
    | none => simp [throw, throwThe, MonadExceptOf.throw]
    | some a =>
      simp only [Option.some.injEq]
      split
      · rw [decodeSwitch_eq_cut_iff]
        simp only [true_and]
        omega
      · simp [decodeSwitch_eq_cut_iff]
      · simp [decodeWide_ne_cut]
      · next htable _ _ =>
        refine iff_of_false ?_ fun h => htable h.1
        split <;> simp [throw, throwThe, MonadExceptOf.throw, pure, Except.pure]

/-- Decoding breaks exactly where a dense jump table ends between its bounds; it looks for the lower
one only. -/
theorem decodeAt_eq_cut_iff {p : Int} : decodeAt code p = .error .cut ↔ ∃ n : Nat, p = n ∧
    code[n]? = some Action.tableSwitch.opcode.byte ∧ n + tableStart n + 8 ≤ code.length ∧
      code.length < n + tableStart n + 12 := by
  cases p with
  | negSucc n => simp [decodeAt]
  | ofNat n =>
    have hcut : decode n (code.drop n) = .error .cut ↔ _ := decode_eq_cut_iff
    simp only [head?_drop, length_drop] at hcut
    by_cases hn : n < code.length
    · rw [decodeAt, if_pos hn, hcut]
      constructor
      · rintro ⟨hbyte, hge, hlt⟩
        exact ⟨n, rfl, hbyte, by omega, by omega⟩
      · rintro ⟨_, ⟨⟩, hbyte, hge, hlt⟩
        exact ⟨hbyte, by omega, by omega⟩
    · rw [decodeAt, if_neg hn]
      simp only [Except.error.injEq, reduceCtorEq, false_iff]
      rintro ⟨_, ⟨⟩, hbyte, -⟩
      exact hn (List.getElem?_eq_some_iff.1 hbyte).1

/-- Instructions that cover the bytes from one offset to another, each behind the one before it. -/
def Tiles (stop : Nat) : Nat → List Insn → Prop
  | start, [] => start = stop
  | start, i :: is => i.offset = start ∧ 0 < i.len ∧ Tiles stop i.next is

lemma Decodes.tiles (h : Decodes offset code is) : Tiles (offset + code.length) offset is := by
  induction h with
  | nil => rfl
  | @cons offset code i is head tail ih =>
    have hle := len_le_of_decode head
    have hoff := offset_of_decode head
    have hstop : i.next + (code.drop i.len).length = offset + code.length := by
      rw [next, hoff, length_drop]
      omega
    exact ⟨hoff, len_pos_of_decode head, hstop ▸ ih⟩

/-- The instructions of a method cover its code. -/
theorem tiles_of_decodeAll (h : decodeAll code = .ok is) : Tiles code.length 0 is := by
  simpa using (decodeAll_eq_ok_iff.1 h).tiles

end Insn

end Classwright
