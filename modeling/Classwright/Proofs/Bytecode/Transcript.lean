import Classwright.Proofs.Bytecode.JumpTables

/-!
What is asked of the assembler, and what it gives.

A `Call` is one operation of the assembler. The transcript of calls keeps what they ask for and
nothing of how it is laid out: the instructions in order, for each label how many of them come
before it, and the protected ranges. Code that follows its transcript (`Code.Follows`) has an item
for each instruction and the labels in their places; finished, it decodes to what the transcript
says.
-/

namespace Classwright

open List

/-! ### Calls -/

inductive Emission where
  | plain (o : Opcode)
  | byte (o : Opcode) (v : UInt8)
  | signedByte (o : Opcode) (v : Int8)
  | short (o : Opcode) (v : UInt16)
  | signedShort (o : Opcode) (v : Int16)
  | interface (index : UInt16) (count : UInt8)
  | slot (o : Opcode) (n : Nat)
  | jump (o : Opcode) (target : Label)
  | table (low high : Int32) (default : Label) (targets : List Label)
  | lookup (default : Label) (keys : List Int32) (targets : List Label)

inductive Call where
  | emission (e : Emission)
  | newLabel
  | here
  | mark (l : Label)
  | join (l : Label)
  | guard (g : Guard)

namespace Emission

def labels : Emission → List Label
  | jump _ l => [l]
  | table _ _ default targets | lookup default _ targets => default :: targets
  | _ => []

/-- Whether control may go on behind an instruction. -/
def falls : Emission → Bool
  | plain o | jump o _ => !o.endsBlock
  | table .. | lookup .. => false
  | _ => true

/-- The instruction has operands of the format that it is emitted with. -/
def Fits : Emission → Prop
  | plain o => o.action?.bind Action.operandLength = some 0
  | byte o _ => o.action?.bind Action.operandLength = some 1 ∧ o.action? ≠ some .pushByte
  | signedByte o _ => o.action? = some .pushByte
  | short o _ => o.action?.bind Action.operandLength = some 2 ∧ o.isBranch = false ∧
      o.action? ≠ some .pushShort ∧ o.action? ≠ some .increment
  | signedShort o _ => o.action? = some .pushShort
  | table low high _ _ => low.toInt ≤ high.toInt
  | interface .. | slot .. | jump .. | lookup .. => True

instance : DecidablePred Fits
  | plain _ | signedByte .. | signedShort .. => inferInstanceAs (Decidable (_ = _))
  | byte .. | short .. => inferInstanceAs (Decidable (_ ∧ _))
  | table .. => inferInstanceAs (Decidable (_ ≤ _))
  | interface .. | slot .. | jump .. | lookup .. => isTrue trivial

/-- The slot in the name of a short form. -/
def impliedSlot (o : Opcode) : Int :=
  match o.action? with
  | some (.loadAt _ n) | some (.storeAt _ n) => n.val
  | _ => 0

/-- The decoded instruction is the emitted one, with labels at the given positions. -/
def Yields (position? : Label → Option Nat) : Emission → Insn → Prop
  | plain o, i => i = { offset := i.offset, len := 1, op := o, operand := impliedSlot o }
  | byte o v, i => i = { offset := i.offset, len := 2, op := o, operand := v.toNat }
  | signedByte o v, i => i = { offset := i.offset, len := 2, op := o, operand := v.toInt }
  | short o v, i => i = { offset := i.offset, len := 3, op := o, operand := v.toNat }
  | signedShort o v, i => i = { offset := i.offset, len := 3, op := o, operand := v.toInt }
  | interface index count, i => i =
      { offset := i.offset, len := 5, op := Action.invokeInterface.opcode, operand := index.toNat,
        operand2 := count.toNat }
  | slot o n, i => i.op.general = o ∧ i.operand = n
  | jump o l, i => ∃ t : Nat, position? l = some t ∧
      i = { offset := i.offset, len := 3, op := o, operand := t }
  | table low high default targets, i => ∃ (d : Nat) (ts : List Nat),
      position? default = some d ∧ targets.map position? = ts.map some ∧
      i = { offset := i.offset, len := i.len, op := Action.tableSwitch.opcode, default := d,
            keys := (range (high.toInt - low.toInt + 1).toNat).map fun n => low.toInt + (n : Nat),
            targets := ts.map Int.ofNat }
  | lookup default keys targets, i => ∃ (d : Nat) (ts : List Nat),
      position? default = some d ∧ targets.map position? = ts.map some ∧
      i = { offset := i.offset, len := i.len, op := Action.lookupSwitch.opcode, default := d,
            keys := keys.map Int32.toInt, targets := ts.map Int.ofNat }

end Emission

namespace Code

/-- Emits an instruction with the emitter of its format. -/
def emission (c : Code) : Emission → Except Misuse Code
  | .plain o => .ok (c.emit o)
  | .byte o v => .ok (c.emitByte o v)
  | .signedByte o v => .ok (c.emitByte o v.toUInt8)
  | .short o v => .ok (c.emitShort o v)
  | .signedShort o v => .ok (c.emitShort o v.toUInt16)
  | .interface index count => .ok (c.emitInterface index count)
  | .slot o n => c.emitLocal o n
  | .jump o l => c.emitJump o l
  | .table low high default targets => c.emitTable low high default targets
  | .lookup default keys targets => c.emitLookup default keys targets

def call (c : Code) : Call → Except Misuse Code
  | .emission e => c.emission e
  | .newLabel => .ok c.newLabel.2
  | .here => .ok c.here.2
  | .mark l => c.mark l
  | .join l => c.join l
  | .guard g => .ok (c.guard g)

def calls (c : Code) : List Call → Except Misuse Code
  | [] => .ok c
  | x :: xs => do (← c.call x).calls xs

end Code

/-! ### Transcripts -/

/-- The row of a protected range, unless the range is empty. -/
def Guard.row? (position? : Label → Option Nat) (g : Guard) :
    Option (Nat × Nat × Nat × UInt16) := do
  let first ← position? g.start
  let last ← position? g.stop
  let handler ← position? g.handler
  if first < last then some (first, last, handler, g.catchType) else none

/-- What was asked for: instructions, for each label the number of instructions before it once it is
resolved, and protected ranges. -/
structure Transcript where
  emissions : List Emission := []
  labels : List (Option Nat) := []
  guards : List Guard := []

namespace Transcript

/-- The number of instructions before a label. -/
def resolved? (t : Transcript) (l : Label) : Option Nat := t.labels.getD l.id none

def note (t : Transcript) : Call → Transcript
  | .emission e => { t with emissions := t.emissions ++ [e] }
  | .newLabel => { t with labels := t.labels ++ [none] }
  | .here => { t with labels := t.labels ++ [some t.emissions.length] }
  | .mark l | .join l => { t with labels := t.labels.set l.id (some t.emissions.length) }
  | .guard g => { t with guards := t.guards ++ [g] }

def ofCalls (xs : List Call) : Transcript := xs.foldl note {}

/-- A call is made with a fitting format, and with labels that exist. -/
def Allows (t : Transcript) : Call → Prop
  | .emission e => e.Fits ∧ ∀ l ∈ e.labels, l.id < t.labels.length
  | .mark l | .join l => l.id < t.labels.length
  | .newLabel | .here | .guard _ => True

instance (t : Transcript) : DecidablePred t.Allows
  | .emission _ => inferInstanceAs (Decidable (_ ∧ _))
  | .mark _ | .join _ => inferInstanceAs (Decidable (_ < _))
  | .newLabel | .here | .guard _ => isTrue trivial

/-- Each call is allowed after those before it. -/
def AllowsAll (t : Transcript) : List Call → Prop
  | [] => True
  | x :: xs => t.Allows x ∧ (t.note x).AllowsAll xs

instance decidableAllowsAll (t : Transcript) (xs : List Call) : Decidable (t.AllowsAll xs) :=
  match xs with
  | [] => isTrue trivial
  | x :: xs =>
    have := decidableAllowsAll (t.note x) xs
    inferInstanceAs (Decidable (t.Allows x ∧ (t.note x).AllowsAll xs))

/-- Where the `n`th of some instructions begins, or their end. -/
def start (insns : List Insn) (n : Nat) : Nat := ((insns.take n).map Insn.len).sum

def position? (t : Transcript) (insns : List Insn) (l : Label) : Option Nat :=
  (t.resolved? l).map (start insns)

/-- Instructions and an exception table say what was asked for. -/
structure Told (t : Transcript) (insns : List Insn) (hs : List ExceptionEntry) : Prop where
  offsets : ∀ {n i}, insns[n]? = some i → i.offset = start insns n
  emissions : Forall₂ (Emission.Yields (t.position? insns)) t.emissions insns
  resolved : ∀ g ∈ t.guards, ∀ l ∈ [g.start, g.stop, g.handler], t.resolved? l ≠ none
  rows : hs.map (fun h => (h.start.toNat, h.stop.toNat, h.handler.toNat, h.catchType)) =
    t.guards.filterMap (Guard.row? (t.position? insns))

end Transcript

/-! ### Items -/

lemma Item.size_pos (i : Item) (p : Nat) : 0 < i.size p := by
  cases i <;> simp only [Item.size] <;> omega

namespace Emission

def Emits : Emission → Item → Prop
  | plain o, i => i = .op o
  | byte o v, i => i = .byte o v
  | signedByte o v, i => i = .byte o v.toUInt8
  | short o v, i => i = .short o v
  | signedShort o v, i => i = .short o v.toUInt16
  | interface index count, i => i = .interface index count
  | slot o n, i => ∃ a : Action, o = a.opcode ∧ i.Local a n
  | jump o l, i => i = .jump o l ∧ o.isBranch = true
  | table low high default targets, i => i = .table low high default targets ∧
      high.toInt - low.toInt + 1 = targets.length
  | lookup default keys targets, i => i = .lookup default (keys.zip targets) ∧
      keys.length = targets.length

end Emission

namespace Code

variable {c d : Code} {i : Item} {l : Label} {t : Transcript} {o : Opcode} {ls : List Label}
  {e : Emission} {xs : List Call}

structure Pushes (c : Code) (i : Item) (d : Code) : Prop where
  items : d.items = i :: c.items
  size : d.size = c.size + i.size c.size
  guards : d.guards = c.guards
  labels : d.labels.size = c.labels.size
  position : ∀ l, d.position? l = c.position? l
  referred : ∀ {l}, c.Referred l → d.Referred l
  error : d.error = none → c.error = none
  laid : d.size ≤ 65535 → c.Laid → d.Laid
  far : ∀ l ∈ i.farLabels, d.Referred l

/-- The formats with a fixed number of operand bytes. -/
lemma exists_action {n : Nat} (h : o.action?.bind Action.operandLength = some n) :
    ∃ a : Action, o = a.opcode ∧ a.operandLength = some n := by
  obtain ⟨a, ha, hn⟩ := Option.bind_eq_some_iff.1 h
  exact ⟨a, Opcode.eq_opcode_of_action? ha, hn⟩

/-- An emitter adds the item of its instruction, which notes its labels, unless it fails. -/
lemma emission_eq (h : c.emission e = .ok d) : (e.labels = [] ∧ e.falls ∧ ∃ err, d = c.fail err) ∨
    ∃ i wide, e.Emits i ∧ (∀ o l, i = .jump o l → wide = false) ∧
      d = c.emitted i e.labels wide (c.reachable && e.falls) := by
  have hpush (i : Item) : c.push i = c.emitted i [] true (c.reachable && true) := by
    rw [Bool.and_true]
    rfl
  cases e with
  | plain o =>
    obtain rfl := Except.ok.inj h
    exact .inr ⟨_, true, rfl, by simp, stopIf_eq _⟩
  | byte | signedByte | short | signedShort | interface =>
    obtain rfl := Except.ok.inj h
    exact .inr ⟨_, true, rfl, by simp, hpush _⟩
  | slot o n =>
    replace h : c.emitLocal o n = .ok d := h
    obtain ⟨a, k, ha, rfl⟩ := exists_action_of_emitLocal h
    rcases emitLocal_eq_ok ha h with rfl | ⟨i, rfl, hi⟩
    · exact .inl ⟨rfl, rfl, _, rfl⟩
    · exact .inr ⟨i, true, ⟨a, rfl, hi⟩, fun o l h => absurd h (hi.straight o l), hpush i⟩
  | jump o l =>
    obtain ⟨hb, rfl⟩ := emitJump_eq_ok h
    exact .inr ⟨_, false, ⟨rfl, hb⟩, by simp, rfl⟩
  | table =>
    obtain ⟨hn, rfl⟩ := emitTable_eq_ok h
    exact .inr ⟨_, true, ⟨rfl, hn⟩, by simp, by simp [Emission.falls, Emission.labels]⟩
  | lookup =>
    obtain ⟨hn, rfl⟩ := emitLookup_eq_ok h
    exact .inr ⟨_, true, ⟨rfl, hn⟩, by simp, by simp [Emission.falls, Emission.labels]⟩

lemma proper_of_emits (hfit : e.Fits) (h : e.Emits i) (hsize : e.labels ≠ [] →
    c.size + i.size c.size ≤ 65535) : i.Proper := by
  cases e with
  | plain o =>
    obtain ⟨a, rfl, ha⟩ := exists_action hfit
    exact h ▸ Item.proper_op ha
  | byte o v =>
    obtain ⟨a, rfl, ha⟩ := exists_action hfit.1
    exact h ▸ Item.proper_byte ha v
  | signedByte o v =>
    obtain rfl := Opcode.eq_opcode_of_action? hfit
    exact h ▸ Item.proper_byte rfl _
  | short o v =>
    obtain ⟨a, rfl, ha⟩ := exists_action hfit.1
    exact h ▸ Item.proper_short ha v
  | signedShort o v =>
    obtain rfl := Opcode.eq_opcode_of_action? hfit
    exact h ▸ Item.proper_short rfl _
  | interface index count => exact h ▸ Item.proper_interface index count
  | slot o n =>
    obtain ⟨a, -, hi⟩ := h
    exact hi.proper
  | jump o l =>
    obtain ⟨rfl, hb⟩ := h
    obtain ⟨a, ha, hba⟩ := (Option.any_eq_true _ _).1 hb
    obtain rfl := Opcode.eq_opcode_of_action? ha
    exact Item.proper_jump hba l
  | table low high default targets =>
    obtain ⟨rfl, hn⟩ := h
    exact Item.proper_table hfit hn
  | lookup default keys targets =>
    obtain ⟨rfl, hn⟩ := h
    have := hsize (cons_ne_nil _ _)
    simp only [Item.size] at this
    exact Item.proper_lookup (by omega)

/-- The item of an instruction has its labels. -/
lemma labels_of_emits (h : e.Emits i) :
    (∀ o l, i = .jump o l → e.labels = [l]) ∧ ∀ l ∈ i.farLabels, l ∈ e.labels := by
  cases e with
  | slot o n =>
    obtain ⟨a, -, hi⟩ := h
    exact ⟨fun o l h => absurd h (hi.straight o l), by simp [hi.near]⟩
  | jump o l =>
    obtain ⟨rfl, -⟩ := h
    exact ⟨fun o' k hk => by rw [(Item.jump.inj hk).2, Emission.labels], by simp [Item.farLabels]⟩
  | table =>
    obtain ⟨rfl, -⟩ := h
    exact ⟨by simp, fun _ => id⟩
  | lookup default keys targets =>
    obtain ⟨rfl, hn⟩ := h
    exact ⟨by simp, by simp [Item.farLabels, Emission.labels, map_snd_zip hn.ge]⟩
  | _ =>
    obtain rfl := h
    exact ⟨by simp, by simp [Item.farLabels]⟩

/-- An emitter adds the item of its instruction, unless it fails. -/
lemma emission_eq_ok (hfit : e.Fits) (hl : ∀ l ∈ e.labels, l.id < c.labels.size)
    (h : c.emission e = .ok d) : (∃ err, d = c.fail err) ∨ ∃ i, e.Emits i ∧ c.Pushes i d := by
  rcases emission_eq h with ⟨-, -, herr⟩ | ⟨i, wide, hi, hwide, rfl⟩
  · exact .inl herr
  · obtain ⟨ha, href⟩ := foldl_refer_awaits ⟨c.size, wide⟩ e.labels (c.push i)
    obtain ⟨hjump, hfar⟩ := labels_of_emits hi
    replace ha := ha.withReachable (c.reachable && e.falls)
    refine .inr ⟨i, hi, ha.items, ha.size, ha.guards, ha.labels, ha.position, ha.referred, ha.error,
      fun hd hc => ?_, fun l hl' => href l (hfar l hl') (hl l (hfar l hl'))⟩
    refine (grows_push (proper_of_emits hfit hi fun _ => ha.size ▸ hd) ha fun o l h => ?_).laid hc
    -- The one label of a branch.
    have hone := hjump o l h
    obtain rfl := hwide o l h
    have hlt := hl l (by simp [hone])
    rw [hone]
    exact ⟨hlt, linked_refer (c := c.push i) hlt⟩

lemma fail_eq (err : CodeError) : ∃ error, c.fail err = { c with error } := by
  unfold fail
  split
  · exact ⟨c.error, rfl⟩
  · exact ⟨_, rfl⟩

/-- The assembler says whether control goes on behind what was emitted. -/
lemma reachable_emission (h : c.emission e = .ok d) : d.reachable = (c.reachable && e.falls) := by
  rcases emission_eq h with ⟨-, hf, err, rfl⟩ | ⟨i, wide, -, -, rfl⟩
  · obtain ⟨error, he⟩ := fail_eq (c := c) err
    rw [he, hf, Bool.and_true]
  · rfl

lemma referred_emission (hl : l ∈ e.labels) (hlt : l.id < c.labels.size)
    (h : c.emission e = .ok d) : d.Referred l := by
  rcases emission_eq h with ⟨hnil, -⟩ | ⟨i, wide, -, -, rfl⟩
  · simp [hnil] at hl
  · exact (foldl_refer_awaits _ e.labels (c.push i)).2 l hl hlt

/-- An instruction without labels. -/
lemma emission_grows (hfit : e.Fits) (hl : e.labels = []) (h : c.emission e = .ok d) :
    c.Grows d ∧ d.guards = c.guards := by
  rcases emission_eq h with ⟨-, -, err, rfl⟩ | ⟨i, wide, hi, -, rfl⟩
  · obtain ⟨error, he⟩ := fail_eq (c := c) err
    exact ⟨fail_grows err, by rw [he]⟩
  · rw [hl]
    refine ⟨grows_push (proper_of_emits (c := c) hfit hi (absurd hl))
      ((Awaits.refl _).withReachable _) fun o l h => ?_, rfl⟩
    cases hl.symm.trans ((labels_of_emits hi).1 o l h)

/-! ### Following a transcript -/

/-- Code has the items, the labels and the protected ranges of a transcript. -/
structure Follows (c : Code) (t : Transcript) : Prop where
  emissions : Forall₂ (fun e i => e.Fits ∧ e.Emits i) t.emissions c.items.reverse
  labels : c.labels.size = t.labels.length
  resolved : ∀ {l n}, t.resolved? l = some n →
    ∃ is, is <:+ c.items ∧ is.length = n ∧ c.position? l = some (extent is)
  unresolved : ∀ {l}, t.resolved? l = none → c.position? l = none
  guards : c.guards.reverse = t.guards
  size : c.size = extent c.items
  laid : c.size ≤ 65535 → c.Laid
  far : ∀ {i l}, i ∈ c.items → l ∈ i.farLabels → c.Referred l

lemma follows_empty : empty.Follows {} where
  emissions := .nil
  labels := rfl
  resolved h := by simp [Transcript.resolved?] at h
  unresolved _ := by simp [empty, position?, labelState]
  guards := rfl
  size := rfl
  laid _ := laid_empty
  far h := by simp [empty] at h

lemma Follows.emission (hc : c.Follows t) (hfit : e.Fits) (he : e.Emits i)
    (h : c.Pushes i d) : d.Follows (t.note (.emission e)) where
  emissions := by
    rw [h.items, reverse_cons]
    exact rel_append hc.emissions (.cons ⟨hfit, he⟩ .nil)
  labels := h.labels.trans hc.labels
  resolved hl := by
    obtain ⟨is, his, hlen, hp⟩ := hc.resolved hl
    exact ⟨is, his.trans (h.items ▸ suffix_cons _ _), hlen, (h.position _).trans hp⟩
  unresolved hl := (h.position _).trans (hc.unresolved hl)
  guards := h.guards ▸ hc.guards
  size := by rw [h.size, h.items, hc.size, extent]
  laid hd := h.laid hd (hc.laid (by rw [h.size] at hd; omega))
  far hi hl := by
    rw [h.items] at hi
    rcases mem_cons.1 hi with rfl | hi
    · exact h.far _ hl
    · exact h.referred (hc.far hi hl)

/-- All that is resolved now is resolved behind the last item. -/
lemma Follows.length_emissions (hc : c.Follows t) : t.emissions.length = c.items.length := by
  simpa using hc.emissions.length_eq

/-- A label more, resolved here or not at all. -/
lemma Follows.push_label {s : LabelState} {m : Option Nat} (hc : c.Follows t)
    (hs : s.position = none ∧ m = none ∨ s.position = some c.size ∧ m = some t.emissions.length) :
    ({ c with labels := c.labels.push s } : Code).Follows { t with labels := t.labels ++ [m] } := by
  have hg := grows_push_label (c := c) s (hs.imp And.left And.left)
  have hlabel (k : Label) : Transcript.resolved? { t with labels := t.labels ++ [m] } k =
      if k.id = c.labels.size then m else t.resolved? k := by
    have hlabels := hc.labels
    simp only [Transcript.resolved?, getD_eq_getElem?_getD, getElem?_append]
    grind
  refine ⟨hc.emissions, by simp [hc.labels], fun {k n} hk => ?_, fun {k} hk => ?_, hc.guards,
    hc.size, fun hd => hg.laid (hc.laid hd), fun hi hk => hg.referred (hc.far hi hk)⟩
  · rw [hlabel] at hk
    rw [position?, labelState_push]
    split_ifs at hk ⊢
    · rcases hs with ⟨-, rfl⟩ | ⟨hs, rfl⟩
      · cases hk
      · exact ⟨c.items, suffix_refl _, hc.length_emissions.symm.trans (Option.some.inj hk),
          by rw [hs, hc.size]⟩
    · exact hc.resolved hk
  · rw [hlabel] at hk
    rw [position?, labelState_push]
    split_ifs at hk ⊢
    · rcases hs with ⟨hs, -⟩ | ⟨-, rfl⟩
      · exact hs
      · cases hk
    · exact hc.unresolved hk

/-- Resolving a label, with or without a way into it. -/
lemma Follows.marked {reachable : Bool} {e : Option CodeError} (hc : c.Follows t)
    (hlt : l.id < t.labels.length) (hl : c.position? l = none)
    (he : e = none → c.error = none ∧ ∀ r ∈ (c.labelState l).pending, r.wide = false →
    InReach r.insn c.size) : (c.marked l reachable e).Follows
    { t with labels := t.labels.set l.id (some t.emissions.length) } := by
  have hg : c.Grows (c.marked l reachable e) := marked_grows hl he
  have hlt' : l.id < c.labels.size := hc.labels ▸ hlt
  have hset (k : Label) : Transcript.resolved?
      { t with labels := t.labels.set l.id (some t.emissions.length) } k =
        if k = l then some t.emissions.length else t.resolved? k := by
    simp only [Transcript.resolved?, getD_eq_getElem?_getD, getElem?_set]
    grind [Label.eq_iff]
  refine ⟨hc.emissions, by simp [Code.marked, hc.labels], fun {k n} hk => ?_, fun {k} hk => ?_,
    hc.guards, hc.size, fun hd => hg.laid (hc.laid hd), fun hi hk => hg.referred (hc.far hi hk)⟩
  · rw [hset] at hk
    split_ifs at hk with hkl
    · subst hkl
      refine ⟨c.items, suffix_refl _, ?_, (position?_marked hlt').trans (by rw [hc.size])⟩
      rw [← hc.length_emissions]
      exact Option.some.inj hk
    · obtain ⟨is, his, hlen, hp⟩ := hc.resolved hk
      exact ⟨is, his, hlen, hg.position hp⟩
  · rw [hset] at hk
    split_ifs at hk with hkl
    rw [position?, labelState_marked, if_neg (fun h => hkl h.1)]
    exact hc.unresolved hk

/-- One call: the code goes on following the transcript, unless it has failed. -/
lemma call_eq_ok {x : Call} (hx : t.Allows x) (hc : c.Follows t) (h : c.call x = .ok d) :
    d.error ≠ none ∨ d.Follows (t.note x) := by
  cases x with
  | emission e =>
    obtain ⟨hfit, hl⟩ := hx
    rw [← hc.labels] at hl
    rcases emission_eq_ok hfit hl h with ⟨err, rfl⟩ | ⟨i, hi, hpush⟩
    · exact .inl (fail_error_ne_none err)
    · exact .inr (hc.emission hfit hi hpush)
  | newLabel =>
    obtain rfl := Except.ok.inj h
    exact .inr (hc.push_label (.inl ⟨rfl, rfl⟩))
  | here =>
    obtain rfl := Except.ok.inj h
    exact .inr (hc.push_label (.inr ⟨rfl, rfl⟩))
  | mark l =>
    obtain ⟨hl, e, rfl, he⟩ := mark_eq_ok h
    exact .inr (hc.marked hx hl he)
  | join l =>
    obtain ⟨hl, e, rfl, he⟩ := join_eq_ok h
    exact .inr (hc.marked hx hl he)
  | guard g =>
    obtain rfl := Except.ok.inj h
    exact .inr ⟨hc.emissions, hc.labels, hc.resolved, hc.unresolved,
      by simp [Code.guard, Transcript.note, hc.guards], hc.size,
      fun hd => (guard_grows g).laid (hc.laid hd), hc.far⟩

/-- Code that has failed stays so. -/
lemma error_of_emission (h : c.emission e = .ok d) (hd : d.error = none) : c.error = none := by
  rcases emission_eq h with ⟨-, -, err, rfl⟩ | ⟨i, wide, -, -, rfl⟩
  · exact absurd hd (fail_error_ne_none _)
  · exact (foldl_refer_awaits _ e.labels (c.push i)).1.error hd

lemma error_of_call {x : Call} (h : c.call x = .ok d) (hd : d.error = none) : c.error = none := by
  cases x with
  | emission e => exact error_of_emission h hd
  | newLabel | here | guard =>
    obtain rfl := Except.ok.inj h
    exact hd
  | mark l =>
    obtain ⟨-, e, rfl, he⟩ := mark_eq_ok h
    exact (he hd).1
  | join l =>
    obtain ⟨-, e, rfl, he⟩ := join_eq_ok h
    exact (he hd).1

lemma error_of_calls (h : c.calls xs = .ok d) (hd : d.error = none) : c.error = none := by
  induction xs generalizing c with
  | nil =>
    obtain rfl := Except.ok.inj h
    exact hd
  | cons x xs ih =>
    obtain ⟨c', hx, hxs⟩ := Except.bind_eq_ok_iff.1 h
    exact error_of_call hx (ih hxs)

/-- All calls: code that has not failed follows its transcript. -/
lemma Follows.calls (hc : c.Follows t) (hxs : t.AllowsAll xs)
    (h : c.calls xs = .ok d) (hd : d.error = none) : d.Follows (xs.foldl Transcript.note t) := by
  induction xs generalizing c t with
  | nil =>
    obtain rfl := Except.ok.inj h
    exact hc
  | cons x xs ih =>
    obtain ⟨c', hx, h⟩ := Except.bind_eq_ok_iff.1 h
    rcases call_eq_ok hxs.1 hc hx with herr | hc'
    · exact absurd (error_of_calls h hd) herr
    · exact ih hc' hxs.2 h

end Code

/-! ### Instructions -/

namespace Emission

variable {p : Nat} {a : Action}

lemma withOperands_nil : Insn.withOperands { offset := p, len := 1, op := a.opcode } a [] =
    { offset := p, len := 1, op := a.opcode, operand := impliedSlot a.opcode } := by
  unfold impliedSlot
  rw [Opcode.action?_opcode]
  cases a <;> rfl

lemma withOperands_byte {v : UInt8} (ha : a.operandLength = some 1) (hne : a ≠ .pushByte) :
    Insn.withOperands { offset := p, len := 2, op := a.opcode } a [v] =
      { offset := p, len := 2, op := a.opcode, operand := v.toNat } := by
  cases a <;> simp [Action.operandLength] at ha hne <;> rfl

lemma withOperands_short {v : UInt16} (ha : a.operandLength = some 2) (hb : a.isBranch = false)
    (hne : a ≠ .pushShort) (hne' : a ≠ .increment) :
    Insn.withOperands { offset := p, len := 3, op := a.opcode } a (Bytes.ofU16 v) =
      { offset := p, len := 3, op := a.opcode, operand := v.toNat } := by
  cases a <;> simp [Action.operandLength, Action.isBranch] at ha hb hne hne' <;>
    simp [Insn.withOperands, Bytes.ofU16, Bytes.u16_ofU16, Action.isBranch]

end Emission

namespace Code

variable {c : Code} {p : Nat} {i : Item} {l : Label} {t : Transcript} {bs : Bytes}
  {hs : List ExceptionEntry} {is : List Item} {insn : Insn} {insns : List Insn}

lemma extent_le_of_suffix {js : List Item} (h : is <:+ js) : extent is ≤ extent js := by
  induction js with
  | nil => rw [suffix_nil.1 h]
  | cons j js ih =>
    rcases suffix_cons_iff.1 h with rfl | h
    · exact le_rfl
    · exact (ih h).trans (Nat.le_add_right _ _)

lemma At.end_le_extent (h : c.At p i) : p + i.size p ≤ extent c.items := by
  obtain ⟨is, his, rfl⟩ := h
  exact extent_le_of_suffix his

lemma At.mem (h : c.At p i) : i ∈ c.items := by
  obtain ⟨is, his, -⟩ := h
  exact his.subset (by simp)

/-- Labels that finished code refers to are resolved. -/
lemma Referred.resolved (hl : c.Referred l) (h : c.finish = .ok (bs, hs)) :
    ∃ q, c.position? l = some q := by
  obtain ⟨-, -, -, hlabels, -⟩ := finish_eq_ok h
  rcases hl with hp | hp
  · exact Option.ne_none_iff_exists'.1 hp
  · have hlt : l.id < c.labels.size := by
      by_contra hge
      simp [not_referred_of_le (not_lt.1 hge)] at hp
    have hstate : c.labelState l = c.labels[l.id] := by
      simp [labelState, Array.getD_eq_getD_getElem?, Array.getElem?_eq_getElem hlt]
    refine Option.ne_none_iff_exists'.1 fun hnone => hp ?_
    rw [hstate]
    exact hlabels _ (Array.getElem_mem hlt) (hstate ▸ hnone)

lemma farTarget_eq {q : Nat} (hl : c.position? l = some q) (hp : p ≤ 65535) (hq : q ≤ 65535) :
    c.farTarget p l = q := by
  have hd : c.distance p l = (q : Int) - p := by simp [distance, hl]
  rw [farTarget, hd, wrapped_of_mem ⟨by omega, by omega⟩]
  omega

lemma map_farTarget (hp : p ≤ 65535) (ls : List Label)
    (hls : ∀ l ∈ ls, ∃ q ≤ 65535, c.position? l = some q) :
    ∃ ts : List Nat, ls.map c.position? = ts.map some ∧
    ls.map (c.farTarget p) = ts.map Int.ofNat := by
  induction ls with
  | nil => exact ⟨[], rfl, rfl⟩
  | cons l ls ih =>
    obtain ⟨q, hq, hl⟩ := hls l mem_cons_self
    obtain ⟨ts, hts, hfar⟩ := ih fun k hk => hls k (mem_cons_of_mem _ hk)
    exact ⟨q :: ts, by simp [hl, hts], by simp [farTarget_eq hl hp hq, hfar]⟩

/-- The item of an instruction without labels decodes to the instruction. -/
lemma yields_of_emits {e : Emission} (hl : e.labels = []) (hfit : e.Fits) (hemit : e.Emits i)
    (hdec : Insn.decode p (c.itemBytes p i) = .ok insn) (position? : Label → Option Nat) :
    e.Yields position? insn := by
  cases e with
  | plain o =>
    obtain ⟨a, rfl, ha⟩ := exists_action hfit
    obtain rfl := hemit
    obtain rfl := Except.ok.inj ((decode_op ha).symm.trans hdec)
    rw [Emission.withOperands_nil]
    rfl
  | byte o v =>
    obtain ⟨⟨a, rfl, ha⟩, hne⟩ := hfit.imp_left exists_action
    rw [Opcode.action?_opcode] at hne
    obtain rfl := hemit
    obtain rfl := Except.ok.inj ((decode_byte ha).symm.trans hdec)
    rw [Emission.withOperands_byte ha (by simpa using hne)]
    rfl
  | signedByte o v =>
    obtain rfl := Opcode.eq_opcode_of_action? hfit
    obtain rfl := hemit
    obtain rfl := Except.ok.inj ((decode_byte rfl).symm.trans hdec)
    rfl
  | short o v =>
    obtain ⟨⟨a, rfl, ha⟩, hb, hne, hne'⟩ := hfit.imp_left exists_action
    rw [Opcode.action?_opcode] at hne hne'
    rw [Opcode.isBranch, Opcode.action?_opcode] at hb
    obtain rfl := hemit
    obtain rfl := Except.ok.inj ((decode_short ha).symm.trans hdec)
    rw [Emission.withOperands_short ha hb (by simpa using hne) (by simpa using hne')]
    rfl
  | signedShort o v =>
    obtain rfl := Opcode.eq_opcode_of_action? hfit
    obtain rfl := hemit
    obtain rfl := Except.ok.inj ((decode_short rfl).symm.trans hdec)
    simp [Emission.Yields, Insn.withOperands, Bytes.ofU16, Bytes.int16, Bytes.u16_ofU16]
  | interface index count =>
    obtain rfl := hemit
    obtain rfl := Except.ok.inj (decode_interface.symm.trans hdec)
    simp [Emission.Yields, Insn.withOperands, Bytes.ofU16, Bytes.u16_ofU16]
  | slot o n =>
    obtain ⟨a, rfl, hi⟩ := hemit
    obtain ⟨insn', b, hdec', hb, hgen, hoperand, -⟩ := hi.decode c p
    obtain rfl := Except.ok.inj (hdec'.symm.trans hdec)
    have hop : insn'.op.general = a.opcode := by rw [Opcode.general_of_action? hb, hgen]
    exact And.intro hop hoperand
  | jump | table | lookup => cases hl

/-- The item of an instruction decodes to the instruction. -/
lemma Laid.yields (hc : c.Laid) (h : c.finish = .ok (bs, hs)) (hat : c.At p i)
    (hrefer : ∀ l ∈ i.farLabels, c.Referred l) {e : Emission} (hfit : e.Fits) (hemit : e.Emits i)
    (hdec : Insn.decode p (c.itemBytes p i) = .ok insn) : e.Yields c.position? insn := by
  obtain ⟨-, -, hsize, -⟩ := finish_eq_ok h
  have hend : p + i.size p ≤ 65535 := hat.end_le_extent.trans (hc.size ▸ hsize)
  have hp : p ≤ 65535 := by omega
  have hfar {l : Label} (hl : l ∈ i.farLabels) : ∃ q ≤ 65535, c.position? l = some q := by
    obtain ⟨q, hq⟩ := (hrefer l hl).resolved h
    exact ⟨q, (hc.position hq).trans hsize, hq⟩
  by_cases hl : e.labels = []
  · exact yields_of_emits hl hfit hemit hdec _
  cases e with
  | jump o l =>
    obtain ⟨rfl, hb⟩ := hemit
    obtain ⟨a, ha, hba⟩ := (Option.any_eq_true _ _).1 hb
    obtain rfl := Opcode.eq_opcode_of_action? ha
    obtain ⟨q, hq, hreach⟩ := hc.resolved h hat
    refine ⟨q, hq, ?_⟩
    rw [decode_jump_of_reach hba hq hreach] at hdec
    obtain rfl := Except.ok.inj hdec
    rfl
  | table low high default targets =>
    obtain ⟨rfl, hn⟩ := hemit
    obtain ⟨d, hd, hdefault⟩ := hfar (l := default) (by simp [Item.farLabels])
    obtain ⟨ts, hts, htargets⟩ := map_farTarget hp targets fun l hl =>
      hfar (by simp [Item.farLabels, hl])
    obtain rfl := Except.ok.inj ((decode_table hfit hn).symm.trans hdec)
    refine ⟨d, ts, hdefault, hts, ?_⟩
    simp [farTarget_eq hdefault hp hd, htargets, hn]
  | lookup default keys targets =>
    obtain ⟨rfl, hn⟩ := hemit
    simp only [Item.size] at hend
    obtain ⟨d, hd, hdefault⟩ := hfar (l := default) (by simp [Item.farLabels])
    obtain ⟨ts, hts, htargets⟩ := map_farTarget hp targets fun l hl =>
      hfar (by simp [Item.farLabels, map_snd_zip hn.ge, hl])
    obtain rfl := Except.ok.inj ((decode_lookup (by omega)).symm.trans hdec)
    refine ⟨d, ts, hdefault, hts, ?_⟩
    have hkeys : (keys.zip targets).map (fun x => x.1.toInt) = keys.map Int32.toInt := by
      simpa [Function.comp_def] using congrArg (map Int32.toInt) (map_fst_zip hn.le)
    have hzip : (keys.zip targets).map (fun x => c.farTarget p x.2) = ts.map Int.ofNat := by
      simpa [Function.comp_def, htargets] using
        congrArg (map (c.farTarget p)) (map_snd_zip hn.ge)
    simp [farTarget_eq hdefault hp hd, hkeys, hzip]
  | _ => exact absurd rfl hl

/-- An instruction of finished code is the one that was emitted. -/
lemma Laid.yields_emission {c d t : Code} {e : Emission} (ht : t.Laid)
    (hfin : t.finish = .ok (bs, hs)) (hc : c.size = extent c.items) (hfit : e.Fits)
    (hl : ∀ l ∈ e.labels, l.id < c.labels.size) (h : c.emission e = .ok d) (hext : d.Extends t) :
    d.size = extent d.items ∧ c.size < d.size ∧
    ∃ i, t.Codes c.size i ∧ e.Yields t.position? i ∧ i.next = d.size := by
  have hd : d.error = none := hext.error (finish_eq_ok hfin).1
  rcases emission_eq_ok hfit hl h with ⟨err, rfl⟩ | ⟨i, hi, hp⟩
  · exact absurd hd (fail_error_ne_none err)
  have hat : t.At c.size i := hext.at ⟨c.items, hp.items ▸ suffix_refl _, hc.symm⟩
  obtain ⟨insn, hdec, hlen⟩ := ht.proper i hat.mem t c.size
  have hrefer := fun l hl => hext.referred (hp.far l hl)
  refine ⟨by rw [hp.size, hp.items, hc, extent], ?_, insn, ⟨i, hat, hdec⟩,
    ht.yields hfin hat hrefer hfit hi hdec, ?_⟩
  · have := i.size_pos c.size
    have := hp.size
    omega
  · rw [Insn.next, Insn.offset_of_decode hdec, hlen, length_itemBytes, hp.size]

/-! ### Finished code -/

lemma map_located (is : List Item) : (located is).map Prod.snd = is := by
  induction is with
  | nil => rfl
  | cons i is ih => simp [located, ih]

lemma located_suffix {js : List Item} (h : is <:+ js) : located is <:+ located js := by
  induction js with
  | nil => rw [suffix_nil.1 h]
  | cons j js ih =>
    rcases suffix_cons_iff.1 h with rfl | h
    · exact suffix_refl _
    · exact (ih h).trans (suffix_cons _ _)

lemma length_located (is : List Item) : (located is).length = is.length := by
  rw [← length_map Prod.snd, map_located]

/-- Instructions of items take the bytes of the items. -/
lemma sum_len (hp : ∀ i ∈ is, i.Proper)
    (h : Forall₂ (fun x insn => Insn.decode x.1 (c.itemBytes x.1 x.2) = .ok insn)
      (located is) insns) : (insns.map Insn.len).sum = extent is := by
  induction is generalizing insns with
  | nil => simp [forall₂_nil_left_iff.1 h, extent]
  | cons i is ih =>
    obtain ⟨insn, rest, hinsn, hrest, rfl⟩ := forall₂_cons_left_iff.1 h
    obtain ⟨insn', hinsn', hlen⟩ := hp i mem_cons_self c (extent is)
    obtain rfl := Except.ok.inj (hinsn'.symm.trans hinsn)
    have hsum := ih (fun j hj => hp j (mem_cons_of_mem _ hj)) hrest
    rw [map_cons, sum_cons, hsum, hlen, length_itemBytes, extent, Nat.add_comm]

/-- The labels of code stand where its instructions say. -/
lemma Follows.position?_eq (hc : c.Follows t) (hp : ∀ i ∈ c.items, i.Proper)
    (h : Forall₂ (fun x insn => Insn.decode x.1 (c.itemBytes x.1 x.2) = .ok insn)
      (located c.items).reverse insns) : t.position? insns = c.position? := by
  funext l
  unfold Transcript.position?
  cases hl : t.resolved? l with
  | none => exact (hc.unresolved hl).symm
  | some n =>
    obtain ⟨is, his, rfl, hpos⟩ := hc.resolved hl
    rw [hpos, Option.map_some, Transcript.start]
    -- The first instructions are those of the first items.
    obtain ⟨front, hfront⟩ := located_suffix his
    have htake := forall₂_take is.length h
    rw [← hfront, reverse_append, take_left' (by simp [length_located])] at htake
    have hsum := sum_len (fun i hi => hp i (his.subset hi))
      (forall₂_reverse_iff.1 (by rwa [reverse_reverse]))
    rw [← hsum, map_reverse, sum_reverse]

/-- Instructions of code that start at an offset begin one after another. -/
lemma offset_eq_start {offset : Nat} {code : Bytes}
    (h : Insn.Decodes offset code insns) {n : Nat} (hn : insns[n]? = some insn) :
    insn.offset = offset + Transcript.start insns n := by
  induction h generalizing n with
  | nil => simp at hn
  | @cons offset code j js head tail ih =>
    have hoff := Insn.offset_of_decode head
    cases n with
    | zero =>
      obtain rfl : j = insn := by simpa using hn
      simp [Transcript.start, hoff]
    | succ n =>
      have := ih (by simpa using hn)
      simp only [Insn.next, Transcript.start, take_succ_cons, map_cons, sum_cons]
        at this ⊢
      omega

/-- The rows of an exception table are those of the protected ranges. -/
lemma handlers?_eq_some (hle : ∀ {l q}, c.position? l = some q → q ≤ 65535)
    (h : c.handlers? = some hs) :
    (∀ g ∈ c.guards.reverse, ∀ l ∈ [g.start, g.stop, g.handler], c.position? l ≠ none) ∧
    hs.map (fun h => (h.start.toNat, h.stop.toNat, h.handler.toNat, h.catchType)) =
    c.guards.reverse.filterMap (Guard.row? c.position?) := by
  unfold handlers? at h
  generalize c.guards.reverse = gs at h ⊢
  induction gs generalizing hs with
  | nil => simp_all
  | cons g gs ih =>
    simp only [mapM_cons, Option.bind_eq_bind, Option.bind_eq_some_iff, Option.pure_def,
      Option.some.injEq] at h ih
    obtain ⟨_, ⟨_, ⟨s, hs, e, he, k, hk, rfl⟩, rows, hrows, rfl⟩, rfl⟩ := h
    obtain ⟨hres, hrest⟩ := ih ⟨rows, hrows, rfl⟩
    have hof {q : Nat} {l : Label} (hl : c.position? l = some q) : (UInt16.ofNat q).toNat = q := by
      have := hle hl
      rw [UInt16.toNat_ofNat']
      omega
    refine ⟨?_, ?_⟩
    · intro g' hg'
      rcases mem_cons.1 hg' with rfl | hg'
      · simp [hs, he, hk]
      · exact hres g' hg'
    · rw [filterMap_cons, filterMap_cons]
      by_cases hlt : s < e
      · simp [Guard.row?, hs, he, hk, hlt, hof hs, hof he, hof hk, hrest]
      · simp [Guard.row?, hs, he, hk, hlt, hrest]

/-- Code that follows a transcript and can be finished is what the transcript says. -/
lemma Follows.told (hc : c.Follows t) (h : c.finish = .ok (bs, hs)) :
    ∃ insns, Insn.decodeAll bs = .ok insns ∧ t.Told insns hs := by
  obtain ⟨-, -, hsize, -, hhandlers, rfl⟩ := finish_eq_ok h
  have hlaid := hc.laid hsize
  obtain ⟨insns, hd, hall⟩ := decodes_flat (c := c) hlaid.proper
  have hpos := hc.position?_eq hlaid.proper hall
  obtain ⟨hres, hrows⟩ := handlers?_eq_some (fun hq => (hlaid.position hq).trans hsize) hhandlers
  rw [hc.guards, ← hpos] at hres hrows
  rw [← bytes_eq] at hd
  refine ⟨insns, Insn.decodeAll_eq_ok_iff.2 hd, ⟨fun hn => ?_, ?_, ?_, hrows⟩⟩
  · rw [offset_eq_start hd hn, Nat.zero_add]
  · -- Each item is that of an emission and decodes to an instruction.
    have hitems := hc.emissions
    rw [← map_located c.items, ← map_reverse, forall₂_map_right_iff] at hitems
    refine forall₂_iff_get.2 ⟨hitems.length_eq.trans hall.length_eq, fun n hn hn' => ?_⟩
    have hlt : n < (located c.items).reverse.length := hall.length_eq ▸ hn'
    obtain ⟨hfit, hemit⟩ := hitems.get hn hlt
    rw [hpos]
    have hat : c.At _ _ := mem_located.1 (mem_reverse.1 (get_mem _ ⟨n, hlt⟩))
    exact hlaid.yields h hat (fun l hl => hc.far hat.mem hl) hfit hemit (hall.get hlt hn')
  · intro g hg l hl hnone
    refine hres g hg l hl ?_
    rw [Transcript.position?, hnone, Option.map_none]

/-- The assembler and the decoder agree: whatever is asked for, finished code decodes to one
instruction for each that was emitted, in order and with its operands, branches and jump tables go
to where their labels were resolved, and the exception table has the protected ranges that are not
empty, in order. -/
theorem decodeAll_finish {xs : List Call} (hxs : Transcript.AllowsAll {} xs)
    (hrun : empty.calls xs = .ok c) (h : c.finish = .ok (bs, hs)) :
    ∃ insns, Insn.decodeAll bs = .ok insns ∧ (Transcript.ofCalls xs).Told insns hs :=
  (follows_empty.calls hxs hrun (finish_eq_ok h).1).told h

end Code

/-- A loop with a jump table, forward and backward branches, a slot behind a wide index and a range
that is protected. -/
def dispatchLoop : List Call :=
  [.here, .newLabel, .newLabel,
    .emission (.signedByte Action.pushByte.opcode (-3)),
    .emission (.slot (Action.store .int).opcode 300),
    .mark ⟨1⟩,
    .emission (.slot (Action.load .int).opcode 300),
    .emission (.jump (Action.ifZero .eq).opcode ⟨2⟩),
    .emission (.slot (Action.load .int).opcode 300),
    .emission (.table 0 1 ⟨2⟩ [⟨1⟩, ⟨2⟩]),
    .join ⟨2⟩,
    .emission (.plain Action.returnVoid.opcode),
    .guard ⟨⟨0⟩, ⟨2⟩, ⟨2⟩, 0⟩]

theorem decodeAll_finish_dispatchLoop : ∃ c bs hs, Transcript.AllowsAll {} dispatchLoop ∧
    Code.empty.calls dispatchLoop = .ok c ∧ c.finish = .ok (bs, hs) ∧
    ∃ insns, Insn.decodeAll bs = .ok insns ∧ (Transcript.ofCalls dispatchLoop).Told insns hs := by
  have hxs : Transcript.AllowsAll {} dispatchLoop := by decide +kernel
  have hok : ((Code.empty.calls dispatchLoop).toOption.bind fun c => c.finish.toOption).isSome := by
    decide +kernel
  obtain ⟨⟨bs, hs⟩, hok⟩ := Option.isSome_iff_exists.1 hok
  obtain ⟨c, hrun, h⟩ := Option.bind_eq_some_iff.1 hok
  rw [Except.toOption_eq_some_iff] at hrun h
  exact ⟨c, bs, hs, hxs, hrun, h, Code.decodeAll_finish hxs hrun h⟩

end Classwright
