import Classwright.Bytecode.Assembler
import Classwright.Proofs.Bytecode.Decoding
import Classwright.Proofs.Bytes

/-!
Assembled code.

An item stands `At` an offset if the items before it take so many bytes. Code only grows while it is
assembled (`Code.Extends`), and what is known of a part of it stays true of the whole. Every branch
is in reach of its label or waits for it (`Code.Laid`), so that finished code decodes to its items,
with branches to the positions of their labels.
-/

namespace Classwright

open List

/-! ### Offsets -/

/-- The bytes that items take, the latest first. -/
def extent : List Item → Nat
  | [] => 0
  | i :: is => extent is + i.size (extent is)

/-- The labels that a jump table refers to. -/
def Item.farLabels : Item → List Label
  | table _ _ default targets => default :: targets
  | lookup default cases => default :: cases.map Prod.snd
  | _ => []

/-- Whether a branch reaches its target. -/
def InReach (insn target : Nat) : Prop :=
  -32768 ≤ (target : Int) - insn ∧ (target : Int) - insn ≤ 32767

/-- An item decodes to one instruction, which takes all of its bytes. -/
def Item.Proper (i : Item) : Prop :=
  ∀ (c : Code) (p : Nat), ∃ insn, Insn.decode p (c.itemBytes p i) = .ok insn ∧
    insn.len = (c.itemBytes p i).length

lemma Label.eq_iff {l k : Label} : l = k ↔ k.id = l.id :=
  ⟨fun h => h ▸ rfl, fun h => by cases l; cases k; simp_all⟩

namespace Code

/-- An item stands at an offset. -/
def At (c : Code) (p : Nat) (i : Item) : Prop := ∃ is, (i :: is) <:+ c.items ∧ extent is = p

/-- A branch to a label was emitted, or the label is resolved. -/
def Referred (c : Code) (l : Label) : Prop :=
  c.position? l ≠ none ∨ (c.labelState l).pending ≠ []

variable {c d : Code} {p t : Nat} {i j : Item} {l : Label} {e : Option CodeError} {reachable : Bool}
  {o : Opcode} {is : List Item} {a : Action}

lemma At.of_suffix (h : c.At p i) (hs : c.items <:+ d.items) : d.At p i := by
  obtain ⟨is, hi, rfl⟩ := h
  exact ⟨is, hi.trans hs, rfl⟩

lemma At.of_push (h : (c.push j).At p i) : p = extent c.items ∧ i = j ∨ c.At p i := by
  obtain ⟨is, hi, rfl⟩ := h
  rcases suffix_cons_iff.1 hi with he | hi
  · obtain ⟨rfl, rfl⟩ := cons.inj he
    exact .inl ⟨rfl, rfl⟩
  · exact .inr ⟨is, hi, rfl⟩

/-! ### Growth -/

/-- Later code has all that was emitted and resolved before. -/
structure Extends (c d : Code) : Prop where
  items : c.items <:+ d.items
  guards : c.guards <:+ d.guards
  labels : c.labels.size ≤ d.labels.size
  position : ∀ {l p}, c.position? l = some p → d.position? l = some p
  referred : ∀ {l}, c.Referred l → d.Referred l
  error : d.error = none → c.error = none

lemma Extends.refl (c : Code) : c.Extends c :=
  ⟨suffix_refl _, suffix_refl _, le_rfl, id, id, id⟩

lemma Extends.trans {e : Code} (h : c.Extends d) (h' : d.Extends e) : c.Extends e where
  items := h.items.trans h'.items
  guards := h.guards.trans h'.guards
  labels := h.labels.trans h'.labels
  position hp := h'.position (h.position hp)
  referred hr := h'.referred (h.referred hr)
  error he := h.error (h'.error he)

lemma Extends.at (h : c.Extends d) (hi : c.At p i) : d.At p i := hi.of_suffix h.items

/-! ### Invariant -/

/-- A branch at `p` reaches its label or waits for it. -/
def Linked (c : Code) (p : Nat) (l : Label) : Prop :=
  match c.position? l with
  | some t => InReach p t
  | none => ⟨p, false⟩ ∈ (c.labelState l).pending

/-- The size is that of the items, and each of them can be decoded; positions are within the code,
and branches are linked as long as nothing has failed. -/
structure Laid (c : Code) : Prop where
  size : c.size = extent c.items
  proper : ∀ i ∈ c.items, i.Proper
  position : ∀ {l p}, c.position? l = some p → p ≤ c.size
  known : ∀ {p o l}, c.At p (.jump o l) → l.id < c.labels.size
  linked : c.error = none → ∀ {p o l}, c.At p (.jump o l) → c.Linked p l

lemma laid_empty : empty.Laid where
  size := rfl
  proper := by simp [empty]
  position hp := by simp [empty, position?, labelState] at hp
  known h := by
    obtain ⟨is, hi, -⟩ := h
    simp [empty] at hi
  linked _ _ _ _ h := by
    obtain ⟨is, hi, -⟩ := h
    simp [empty] at hi

/-- A step of assembling. -/
structure Grows (c d : Code) : Prop extends Extends c d where
  laid : c.Laid → d.Laid
  size : c.size ≤ d.size

lemma Grows.refl (c : Code) : c.Grows c := ⟨.refl c, id, le_rfl⟩

lemma Grows.trans {e : Code} (h : c.Grows d) (h' : d.Grows e) : c.Grows e :=
  ⟨h.toExtends.trans h'.toExtends, fun hc => h'.laid (h.laid hc), h.size.trans h'.size⟩

/-! ### Labels -/

lemma labelState_push (s : LabelState) :
    ({ c with labels := c.labels.push s } : Code).labelState l =
      if l.id = c.labels.size then s else c.labelState l := by
  simp only [labelState, Array.getD_eq_getD_getElem?, Array.getElem?_push]
  split_ifs <;> rfl

lemma labelState_set (s : LabelState) (k : Label) :
    ({ c with labels := c.labels.setIfInBounds k.id s } : Code).labelState l =
      if l = k ∧ k.id < c.labels.size then s else c.labelState l := by
  simp only [labelState, Array.getD_eq_getD_getElem?, Array.getElem?_setIfInBounds]
  grind [Label.eq_iff]

lemma labelState_modify (f : LabelState → LabelState) (k : Label) :
    ({ c with labels := c.labels.modify k.id f } : Code).labelState l =
      if l = k ∧ k.id < c.labels.size then f (c.labelState l) else c.labelState l := by
  simp only [labelState, Array.getD_eq_getD_getElem?, Array.getElem?_modify]
  grind [Label.eq_iff]

lemma not_referred_of_le (h : c.labels.size ≤ l.id) : c.labelState l = {} := by
  simp [labelState, Array.getD_eq_getD_getElem?, Array.getElem?_eq_none h]

/-- A label more: the states of the others stay. -/
lemma grows_push_label (s : LabelState) (hs : s.position = none ∨ s.position = some c.size) :
    c.Grows { c with labels := c.labels.push s } := by
  have hlt {l : Label} (hl : l.id < c.labels.size) :
      ({ c with labels := c.labels.push s } : Code).labelState l = c.labelState l := by
    rw [labelState_push, if_neg hl.ne]
  have hnew {l : Label} (hl : c.labelState l ≠ {}) : l.id < c.labels.size := by
    by_contra hge
    exact hl (not_referred_of_le (not_lt.1 hge))
  refine ⟨⟨suffix_refl _, suffix_refl _, by simp, fun {l p} hp => ?_, fun {l} hr => ?_, id⟩,
    fun hc => ⟨hc.size, hc.proper, fun {l p} hp => ?_, fun h => ?_, fun he p o l h => ?_⟩, le_rfl⟩
  · rwa [position?, hlt (hnew fun h => by simp [position?, h] at hp)]
  · have := hlt (hnew (l := l) fun h => by simp [Referred, position?, h] at hr)
    rwa [Referred, position?, this]
  · rw [position?, labelState_push] at hp
    split_ifs at hp with hl
    · rcases hs with hs | hs
      · simp [hs] at hp
      · exact (Option.some.inj (hs.symm.trans hp)).ge
    · exact hc.position hp
  · have := hc.known h
    simp only [Array.size_push]
    omega
  · rw [Linked, position?, hlt (hc.known h)]
    exact hc.linked he h

lemma newLabel_lt : c.newLabel.1.id < c.newLabel.2.labels.size := by simp [newLabel]

/-- Checking a branch changes nothing but the failure. -/
lemma checkReach_eq (r : Pending) (t : Nat) : ∃ e, c.checkReach r t = { c with error := e } ∧
    (e = none → c.error = none ∧ (r.wide = false → InReach r.insn t)) := by
  unfold checkReach
  dsimp only
  split_ifs with h
  · refine ⟨c.error, rfl, fun he => ⟨he, fun hw => ?_⟩⟩
    simpa [hw, InReach] using h
  · unfold fail
    cases hc : c.error with
    | some e => exact ⟨some e, by simp [← hc], nofun⟩
    | none => exact ⟨_, rfl, nofun⟩

lemma checkReach_foldl (rs : List Pending) (t : Nat) :
    ∃ e, rs.foldl (fun c r => c.checkReach r t) c = { c with error := e } ∧
      (e = none → c.error = none ∧ ∀ r ∈ rs, r.wide = false → InReach r.insn t) := by
  induction rs generalizing c with
  | nil => exact ⟨c.error, rfl, fun he => ⟨he, nofun⟩⟩
  | cons r rs ih =>
    obtain ⟨e, hr, he⟩ := checkReach_eq (c := c) r t
    obtain ⟨e', hrs, he'⟩ := ih (c := { c with error := e })
    refine ⟨e', by rw [foldl_cons, hr, hrs], fun h => ?_⟩
    obtain ⟨h, hall⟩ := he' h
    obtain ⟨h, hone⟩ := he h
    exact ⟨h, fun r' hr' => (mem_cons.1 hr').elim (fun h => h ▸ hone) (hall r')⟩

/-- Code with a label resolved to its end. -/
def marked (c : Code) (l : Label) (reachable : Bool) (error : Option CodeError) : Code :=
  { c with labels := c.labels.setIfInBounds l.id ⟨some c.size, []⟩, reachable, error }

lemma mark_eq_ok (h : c.mark l = .ok d) : c.position? l = none ∧
    ∃ e, d = c.marked l true e ∧ (e = none → c.error = none ∧
      ∀ r ∈ (c.labelState l).pending, r.wide = false → InReach r.insn c.size) := by
  unfold mark at h
  split at h
  · cases h
  · next pending hl =>
    obtain ⟨e, he, hcheck⟩ := checkReach_foldl (c := c) pending.reverse c.size
    dsimp only at h
    rw [he] at h
    obtain rfl := Except.ok.inj h
    refine ⟨by simp [position?, hl], e, rfl, fun h => ?_⟩
    simpa [hl] using hcheck h

lemma join_eq_ok (h : c.join l = .ok d) :
    c.position? l = none ∧ ∃ e, d = c.marked l (c.reachable || !(c.labelState l).pending.isEmpty)
    e ∧ (e = none → c.error = none ∧
    ∀ r ∈ (c.labelState l).pending, r.wide = false → InReach r.insn c.size) := by
  unfold join at h
  obtain ⟨d', hm, h⟩ := Except.bind_eq_ok_iff.1 h
  obtain ⟨hp, e, rfl, he⟩ := mark_eq_ok hm
  obtain rfl := Except.pure_eq_ok_iff.1 h
  exact ⟨hp, e, rfl, he⟩

lemma labelState_marked {k : Label} : (c.marked k reachable e).labelState l =
      if l = k ∧ k.id < c.labels.size then ⟨some c.size, []⟩ else c.labelState l :=
  labelState_set _ k

lemma position?_marked (hl : l.id < c.labels.size) :
    (c.marked l reachable e).position? l = some c.size := by
  simp [position?, labelState_marked, hl]

lemma marked_grows (hl : c.position? l = none)
    (he : e = none → c.error = none ∧ ∀ r ∈ (c.labelState l).pending, r.wide = false →
    InReach r.insn c.size) : c.Grows (c.marked l reachable e) := by
  refine ⟨⟨suffix_refl _, suffix_refl _, by simp [marked], fun {k p} hp => ?_, fun {k} hr => ?_,
    fun h => (he h).1⟩, fun hc => ⟨hc.size, hc.proper, fun {k p} hp => ?_, fun h => ?_,
    fun h p o k hjump => ?_⟩, le_rfl⟩
  · rw [position?, labelState_marked]
    split_ifs with h
    · rw [h.1, hl] at hp
      cases hp
    · exact hp
  · rw [Referred, position?, labelState_marked]
    split_ifs
    · simp
    · exact hr
  · rw [position?, labelState_marked] at hp
    split_ifs at hp
    · exact (Option.some.inj hp).ge
    · exact hc.position hp
  · simpa [marked] using hc.known h
  · have hlink := hc.linked (he h).1 hjump
    rw [Linked, position?, labelState_marked]
    split_ifs with hk
    · rw [hk.1, Linked, hl] at hlink
      exact (he h).2 _ hlink rfl
    · exact hlink

/-! ### Emitting -/

lemma stopIf_eq (ends : Bool) : c.stopIf ends = { c with reachable := c.reachable && !ends } := by
  unfold stopIf
  cases ends <;> simp

/-- What can be reached next is no matter of the layout. -/
lemma grows_reachable (reachable : Bool) : c.Grows { c with reachable } :=
  ⟨⟨suffix_refl _, suffix_refl _, le_rfl, id, id, id⟩,
    fun hc => ⟨hc.size, hc.proper, hc.position, hc.known, hc.linked⟩, le_rfl⟩

lemma guard_grows (g : Guard) : c.Grows (c.guard g) :=
  ⟨⟨suffix_refl _, suffix_cons _ _, le_rfl, id, id, id⟩,
    fun hc => ⟨hc.size, hc.proper, hc.position, hc.known, hc.linked⟩, le_rfl⟩

lemma fail_grows (e : CodeError) : c.Grows (c.fail e) := by
  unfold fail
  split
  · exact .refl c
  · exact ⟨⟨suffix_refl _, suffix_refl _, le_rfl, id, id, nofun⟩,
      fun hc => ⟨hc.size, hc.proper, hc.position, hc.known, nofun⟩, le_rfl⟩

lemma fail_error_ne_none (e : CodeError) : (c.fail e).error ≠ none := by
  unfold fail
  split
  · next h => simp [h]
  · simp

/-! ### Noting labels -/

/-- Later code that differs only in the branches that wait for labels, and may have failed since. -/
structure Awaits (c d : Code) : Prop where
  items : d.items = c.items
  size : d.size = c.size
  guards : d.guards = c.guards
  labels : d.labels.size = c.labels.size
  position : ∀ l, d.position? l = c.position? l
  pending : ∀ {l r}, r ∈ (c.labelState l).pending → r ∈ (d.labelState l).pending
  error : d.error = none → c.error = none

namespace Awaits

lemma refl (c : Code) : c.Awaits c := ⟨rfl, rfl, rfl, rfl, fun _ => rfl, id, id⟩

variable (h : c.Awaits d)

include h

lemma trans {e : Code} (h' : d.Awaits e) : c.Awaits e where
  items := h'.items.trans h.items
  size := h'.size.trans h.size
  guards := h'.guards.trans h.guards
  labels := h'.labels.trans h.labels
  position l := (h'.position l).trans (h.position l)
  pending hr := h'.pending (h.pending hr)
  error he := h.error (h'.error he)

lemma withReachable (reachable : Bool) : c.Awaits { d with reachable } :=
  ⟨h.items, h.size, h.guards, h.labels, h.position, h.pending, h.error⟩

lemma referred (hl : c.Referred l) : d.Referred l := by
  rcases hl with hp | hp
  · exact .inl ((h.position l).symm ▸ hp)
  · obtain ⟨r, hr⟩ := exists_mem_of_ne_nil _ hp
    exact .inr (ne_nil_of_mem (h.pending hr))

lemma linked (hl : c.Linked p l) : d.Linked p l := by
  unfold Linked at hl ⊢
  rw [h.position]
  cases hp : c.position? l with
  | some t => simpa only [hp] using hl
  | none =>
    simp only [hp] at hl
    exact h.pending hl

end Awaits

/-- A branch to a resolved label is checked, and one to another label waits for it. -/
lemma refer_eq (l : Label) (r : Pending) :
    (∃ t e, c.position? l = some t ∧ c.refer l r = { c with error := e } ∧
      (e = none → c.error = none ∧ (r.wide = false → InReach r.insn t))) ∨
    c.position? l = none ∧ c.refer l r = { c with
      labels := c.labels.modify l.id fun s => { s with pending := r :: s.pending } } := by
  unfold refer
  cases hp : c.position? l with
  | some t =>
    obtain ⟨e, he, hcheck⟩ := checkReach_eq (c := c) r t
    exact .inl ⟨t, e, rfl, he, hcheck⟩
  | none => exact .inr ⟨rfl, rfl⟩

lemma refer_awaits (l : Label) (r : Pending) : c.Awaits (c.refer l r) := by
  rcases refer_eq (c := c) l r with ⟨t, e, -, h, he⟩ | ⟨-, h⟩
  · rw [h]
    exact ⟨rfl, rfl, rfl, rfl, fun _ => rfl, id, fun h => (he h).1⟩
  · rw [h]
    refine ⟨rfl, rfl, rfl, by simp, fun k => ?_, fun {k r} hr => ?_, id⟩
    · rw [position?, labelState_modify]
      split_ifs <;> rfl
    · rw [labelState_modify]
      split_ifs
      · exact mem_cons_of_mem _ hr
      · exact hr

lemma labelState_refer {k : Label} (r : Pending) (hk : k ≠ l) :
    (c.refer l r).labelState k = c.labelState k := by
  rcases refer_eq (c := c) l r with ⟨t, e, -, h, -⟩ | ⟨-, h⟩
  · rw [h]
    rfl
  · rw [h, labelState_modify, if_neg fun h => hk h.1]

lemma referred_refer (r : Pending) (hl : l.id < c.labels.size) : (c.refer l r).Referred l := by
  rcases refer_eq (c := c) l r with ⟨t, e, ht, -, -⟩ | ⟨-, h⟩
  · left
    simp [(refer_awaits l r).position l, ht]
  · right
    rw [h, labelState_modify]
    simp [hl]

lemma linked_refer (hl : l.id < c.labels.size) (he : (c.refer l ⟨p, false⟩).error = none) :
    (c.refer l ⟨p, false⟩).Linked p l := by
  unfold Linked
  rw [(refer_awaits l ⟨p, false⟩).position]
  rcases refer_eq (c := c) l ⟨p, false⟩ with ⟨t, e, ht, h, hreach⟩ | ⟨ht, h⟩
  · rw [h] at he
    simpa only [ht] using (hreach he).2 rfl
  · simp only [ht, h]
    rw [labelState_modify]
    simp [hl]

/-- An instruction more, which has noted its labels. -/
lemma grows_push (hp : i.Proper) (h : (c.push i).Awaits d)
    (hi : ∀ o l, i = .jump o l → l.id < c.labels.size ∧ (d.error = none → d.Linked c.size l)) :
    c.Grows d := by
  have hat {p : Nat} {o : Opcode} {l : Label} (hj : d.At p (.jump o l)) :
      p = extent c.items ∧ .jump o l = i ∨ c.At p (.jump o l) :=
    (hj.of_suffix (h.items ▸ suffix_refl _)).of_push
  refine ⟨⟨h.items ▸ suffix_cons _ _, h.guards ▸ suffix_refl _, h.labels.ge,
    fun hq => (h.position _).trans hq, h.referred, h.error⟩,
    fun hc => ⟨?_, fun j hj => ?_, fun hq => ?_, fun hj => ?_, fun he p o l hj => ?_⟩,
    h.size ▸ Nat.le_add_right _ _⟩
  · rw [h.size, h.items]
    simp [push, extent, hc.size]
  · rw [h.items] at hj
    rcases mem_cons.1 hj with rfl | hj
    · exact hp
    · exact hc.proper j hj
  · rw [h.size]
    exact (hc.position ((h.position _).symm.trans hq)).trans (Nat.le_add_right _ _)
  · rw [h.labels]
    rcases hat hj with ⟨-, hij⟩ | hj
    · exact (hi _ _ hij.symm).1
    · exact hc.known hj
  · rcases hat hj with ⟨rfl, hij⟩ | hj
    · exact hc.size ▸ (hi _ _ hij.symm).2 he
    · exact h.linked (hc.linked (h.error he) hj)

/-- Code with a branch at its end, which has noted its label. -/
def branched (c : Code) (o : Opcode) (l : Label) : Code :=
  (c.push (.jump o l)).refer l ⟨c.size, false⟩

lemma branched_awaits (o : Opcode) : (c.push (.jump o l)).Awaits (c.branched o l) :=
  refer_awaits _ _

lemma emitJump_eq_ok (h : c.emitJump o l = .ok d) :
    o.isBranch ∧ d = { c.branched o l with reachable := c.reachable && !o.endsBlock } := by
  unfold emitJump at h
  split_ifs at h with hb
  obtain rfl := Except.ok.inj h
  refine ⟨hb, ?_⟩
  have hr : (c.branched o l).reachable = c.reachable := by
    unfold branched
    rcases refer_eq (c := c.push (.jump o l)) l ⟨c.size, false⟩ with ⟨t, e, -, h, -⟩ | ⟨-, h⟩ <;>
      rw [h] <;> rfl
  rw [← hr]
  exact stopIf_eq _

lemma branched_grows (hp : (Item.jump o l).Proper) (hl : l.id < c.labels.size) :
    c.Grows (c.branched o l) :=
  grows_push hp (branched_awaits o) fun o' k h => by
    obtain ⟨rfl, rfl⟩ := Item.jump.inj h
    exact ⟨hl, linked_refer (c := c.push _) hl⟩

lemma referred_branched (hl : l.id < c.labels.size) : (c.branched o l).Referred l :=
  referred_refer (c := c.push _) _ hl

/-! ### Bytes -/

lemma length_itemBytes : (c.itemBytes p i).length = i.size p := by
  cases i with
  | table | lookup =>
    simp [itemBytes, Item.size, Bytes.ofInt32, Bytes.ofU32]
    omega
  | _ => rfl

/-- The bytes of items, the latest first. -/
def flat (c : Code) : List Item → Bytes
  | [] => []
  | i :: is => c.flat is ++ c.itemBytes (extent is) i

lemma length_flat (is : List Item) : (c.flat is).length = extent is := by
  induction is with
  | nil => rfl
  | cons i is ih => simp [flat, extent, length_itemBytes, ih]

/-- Items with their offsets, the latest first. -/
def located : List Item → List (Nat × Item)
  | [] => []
  | i :: is => (extent is, i) :: located is

lemma placed_eq : c.placed = located c.items := by
  have hfold (is : List Item) :
      is.reverse.foldl (fun r i => (r.1 + i.size r.1, (r.1, i) :: r.2)) (0, []) =
        (extent is, located is) := by
    induction is with
    | nil => rfl
    | cons i is ih => simp [foldl_append, ih, extent, located]
  exact congrArg Prod.snd (hfold c.items)

lemma bytes_eq : c.bytes = c.flat c.items := by
  have hfold (is : List Item) (after : Bytes) :
      (located is).foldl (fun after r => c.itemBytes r.1 r.2 ++ after) after =
        c.flat is ++ after := by
    induction is generalizing after with
    | nil => rfl
    | cons i is ih => simp [located, flat, ih]
  rw [bytes, placed_eq, ← append_nil (c.flat c.items)]
  exact hfold c.items []

/-- An instruction stands at an offset: the one that the item there decodes to. -/
def Codes (c : Code) (p : Nat) (insn : Insn) : Prop :=
  ∃ i, c.At p i ∧ Insn.decode p (c.itemBytes p i) = .ok insn

lemma mem_located : (p, i) ∈ located is ↔ ∃ js, (i :: js) <:+ is ∧ extent js = p := by
  induction is with
  | nil => simp [located]
  | cons j is ih =>
    simp only [located, mem_cons, Prod.mk.injEq, ih, suffix_cons_iff, cons.injEq]
    constructor
    · rintro (⟨rfl, rfl⟩ | ⟨js, hjs, rfl⟩)
      · exact ⟨is, .inl ⟨rfl, rfl⟩, rfl⟩
      · exact ⟨js, .inr hjs, rfl⟩
    · rintro ⟨js, ⟨rfl, rfl⟩ | hjs, rfl⟩
      · exact .inl ⟨rfl, rfl⟩
      · exact .inr ⟨js, hjs, rfl⟩

/-- Proper items decode, each to its instruction. -/
lemma decodes_flat (hp : ∀ i ∈ is, i.Proper) :
    ∃ insns, Insn.Decodes 0 (c.flat is) insns ∧
    Forall₂ (fun x insn => Insn.decode x.1 (c.itemBytes x.1 x.2) = .ok insn) (located is).reverse
    insns := by
  induction is with
  | nil => exact ⟨[], .nil 0, .nil⟩
  | cons i is ih =>
    obtain ⟨insns, hd, hall⟩ := ih fun j hj => hp j (mem_cons_of_mem _ hj)
    obtain ⟨insn, hi, hlen⟩ := hp i mem_cons_self c (extent is)
    refine ⟨insns ++ [insn], hd.append ?_, ?_⟩
    · rw [length_flat, Nat.zero_add]
      exact .cons hi (by rw [hlen, drop_length]; exact .nil _)
    · rw [located, reverse_cons]
      exact rel_append hall (.cons hi .nil)

/-- Assembled code decodes to its instructions. -/
lemma Laid.decodes (hc : c.Laid) : ∃ insns, Insn.Decodes 0 c.bytes insns ∧
    ∀ {p insn}, c.Codes p insn → insn ∈ insns := by
  obtain ⟨insns, hd, hall⟩ := decodes_flat (c := c) hc.proper
  refine ⟨insns, bytes_eq ▸ hd, fun {p insn} h => ?_⟩
  obtain ⟨i, hi, hdec⟩ := h
  have hmem : (p, i) ∈ (located c.items).reverse := mem_reverse.2 (mem_located.2 hi)
  obtain ⟨n, hn, hget⟩ := getElem_of_mem hmem
  have hdec' := hall.get hn (hall.length_eq ▸ hn)
  simp only [get_eq_getElem, hget, hdec, Except.ok.injEq] at hdec'
  exact hdec' ▸ getElem_mem _

/-! ### The instructions of items -/

lemma decode_op (ha : a.operandLength = some 0) : Insn.decode p (c.itemBytes p (.op a.opcode)) =
      .ok (Insn.withOperands { offset := p, len := 1, op := a.opcode } a []) :=
  @Insn.decode_fixed p a [] ha []

lemma decode_byte {v : UInt8} (ha : a.operandLength = some 1) :
    Insn.decode p (c.itemBytes p (.byte a.opcode v)) =
    .ok (Insn.withOperands { offset := p, len := 2, op := a.opcode } a [v]) :=
  @Insn.decode_fixed p a [v] ha []

lemma decode_short {v : UInt16} (ha : a.operandLength = some 2) :
    Insn.decode p (c.itemBytes p (.short a.opcode v)) =
    .ok (Insn.withOperands { offset := p, len := 3, op := a.opcode } a (Bytes.ofU16 v)) :=
  @Insn.decode_fixed p a (Bytes.ofU16 v) ha []

lemma decode_jump (ha : a.isBranch) : Insn.decode p (c.itemBytes p (.jump a.opcode l)) =
      .ok (Insn.withOperands { offset := p, len := 3, op := a.opcode } a
        (Bytes.ofInt16 (c.distance p l))) :=
  @Insn.decode_fixed p a (Bytes.ofInt16 (c.distance p l)) (by cases a <;> first | rfl | cases ha) []

lemma decode_interface {index : UInt16} {count : UInt8} :
    Insn.decode p (c.itemBytes p (.interface index count)) =
    .ok (Insn.withOperands { offset := p, len := 5, op := Action.invokeInterface.opcode }
    .invokeInterface (Bytes.ofU16 index ++ [count, 0])) := by
  have h := @Insn.decode_fixed p .invokeInterface (Bytes.ofU16 index ++ [count, 0]) rfl []
  rwa [append_nil] at h

/-- Any opcode is taken behind a prefix. -/
lemma decode_wideLocal {o : Opcode} {slot : UInt16} (ho : o.action? ≠ some .increment) :
    Insn.decode p (c.itemBytes p (.wideLocal o slot)) =
      .ok { offset := p, len := 4, op := o, wide := true, operand := slot.toNat } := by
  have hw : Opcode.action? ⟨Action.wide.opcode.byte⟩ = some .wide := Opcode.action?_opcode .wide
  unfold Insn.decode itemBytes
  simp only [hw]
  unfold Insn.decodeWide Bytes.ofU16
  simp only [if_neg ho, Bytes.u16_ofU16]

end Code

namespace Item

variable {a : Action}

lemma proper_op (ha : a.operandLength = some 0) : (op a.opcode).Proper := fun _ _ =>
  ⟨_, Code.decode_op ha, (Insn.withOperands_kept _ _ _).1⟩

lemma proper_byte (ha : a.operandLength = some 1) (v : UInt8) : (byte a.opcode v).Proper :=
  fun _ _ =>
  ⟨_, Code.decode_byte ha, (Insn.withOperands_kept _ _ _).1⟩

lemma proper_short (ha : a.operandLength = some 2) (v : UInt16) : (short a.opcode v).Proper :=
  fun _ _ => ⟨_, Code.decode_short ha, (Insn.withOperands_kept _ _ _).1⟩

lemma proper_interface (index : UInt16) (count : UInt8) : (interface index count).Proper :=
  fun _ _ => ⟨_, Code.decode_interface, (Insn.withOperands_kept _ _ _).1⟩

lemma proper_jump (ha : a.isBranch) (l : Label) : (jump a.opcode l).Proper := fun _ _ =>
  ⟨_, Code.decode_jump ha, (Insn.withOperands_kept _ _ _).1⟩

lemma proper_wideLocal {o : Opcode} (ho : o.action? ≠ some .increment) (slot : UInt16) :
    (wideLocal o slot).Proper :=
  fun _ _ => ⟨_, Code.decode_wideLocal ho, rfl⟩

end Item

/-! ### Finished code -/

namespace Code

variable {c : Code} {p : Nat} {l : Label} {bs : Bytes} {hs : List ExceptionEntry} {a : Action}

lemma finish_eq_ok (h : c.finish = .ok (bs, hs)) :
    c.error = none ∧ 0 < c.size ∧ c.size ≤ 65535 ∧
    (∀ s ∈ c.labels, s.position = none → s.pending = []) ∧ c.handlers? = some hs ∧
    bs = c.bytes := by
  unfold finish at h
  split at h
  · cases h
  · next he =>
    split_ifs at h with hsize hlabels
    split at h
    · next hs' hh =>
      obtain ⟨rfl, rfl⟩ := Prod.mk.inj (Except.ok.inj h)
      refine ⟨he, by omega, by omega, fun s hs hp => ?_, hh, rfl⟩
      by_contra hne
      refine hlabels (Array.any_eq_true'.2 ⟨s, hs, ?_⟩)
      simp [hp, hne]
    · cases h

/-- Branches of finished code have a target in reach. -/
lemma Laid.resolved (hc : c.Laid) (h : c.finish = .ok (bs, hs)) {o : Opcode}
    (hj : c.At p (.jump o l)) : ∃ t, c.position? l = some t ∧ InReach p t := by
  obtain ⟨he, -, -, hlabels, -⟩ := finish_eq_ok h
  have hlink := hc.linked he hj
  unfold Linked at hlink
  cases hp : c.position? l with
  | some t => exact ⟨t, rfl, by simpa only [hp] using hlink⟩
  | none =>
    have hl := hc.known hj
    have hstate : c.labelState l = c.labels[l.id] := by
      simp [labelState, Array.getD_eq_getD_getElem?, Array.getElem?_eq_getElem hl]
    have hnil := hlabels _ (Array.getElem_mem hl) (hstate ▸ hp)
    simp [hp, hstate, hnil] at hlink

/-- A branch in reach of its label goes there. -/
lemma decode_jump_of_reach {t : Nat} (ha : a.isBranch) (hl : c.position? l = some t)
    (hr : InReach p t) : Insn.decode p (c.itemBytes p (.jump a.opcode l)) =
      .ok { offset := p, len := 3, op := a.opcode, operand := t } := by
  have hd : c.distance p l = (t : Int) - p := by simp [distance, hl]
  have hv : Bytes.int16 (UInt16.ofInt ((t : Int) - p) >>> 8).toUInt8
      (UInt16.ofInt ((t : Int) - p)).toUInt8 = (t : Int) - p := by
    unfold InReach at hr
    rw [Bytes.int16, Bytes.u16_ofU16, UInt16.toInt16_ofInt]
    exact Int16.toInt_ofInt_of_le hr.1 (by omega)
  have hw : Insn.withOperands { offset := p, len := 3, op := a.opcode } a
      (Bytes.ofInt16 (c.distance p l)) =
        { offset := p, len := 3, op := a.opcode, operand := t } := by
    rw [hd]
    cases a <;> simp [Action.isBranch] at ha <;>
      simp [Insn.withOperands, Bytes.ofInt16, Bytes.ofU16, Action.isBranch, hv]
  rw [decode_jump ha, hw]

end Code

/-! ### Local variables -/

/-- An item that loads from a slot or stores to it, as the general form of its action says. -/
structure Item.Local (a : Action) (slot : Nat) (i : Item) : Prop where
  proper : i.Proper
  straight : ∀ o l, i ≠ .jump o l
  near : i.farLabels = []
  decode : ∀ (c : Code) (p : Nat), ∃ insn b, Insn.decode p (c.itemBytes p i) = .ok insn ∧
    insn.op.action? = some b ∧ b.general = a ∧ insn.operand = slot ∧ insn.next = p + i.size p

variable {a : Action} {slot : Nat} {k : Kind}

lemma Item.local_op {b : Action} {j : Fin 4} (hj : j.val = slot)
    (h : a = .load k ∧ b = .loadAt k j ∨ a = .store k ∧ b = .storeAt k j) :
    (op b.opcode).Local a slot := by
  have hb : b.operandLength = some 0 := by rcases h with ⟨-, rfl⟩ | ⟨-, rfl⟩ <;> rfl
  refine ⟨proper_op hb, by simp, rfl, fun c p => ⟨_, b, Code.decode_op hb, ?_⟩⟩
  subst hj
  rcases h with ⟨rfl, rfl⟩ | ⟨rfl, rfl⟩
  · exact ⟨Opcode.action?_opcode (.loadAt k j), rfl, rfl, rfl⟩
  · exact ⟨Opcode.action?_opcode (.storeAt k j), rfl, rfl, rfl⟩

lemma Item.local_byte {v : UInt8} (hv : v.toNat = slot)
    (h : a = .load k ∨ a = .store k) : (byte a.opcode v).Local a slot := by
  have ha : a.operandLength = some 1 := by rcases h with rfl | rfl <;> rfl
  refine ⟨proper_byte ha v, by simp, rfl, fun c p => ⟨_, a, Code.decode_byte ha, ?_⟩⟩
  subst hv
  rcases h with rfl | rfl
  · exact ⟨Opcode.action?_opcode (.load k), rfl, rfl, rfl⟩
  · exact ⟨Opcode.action?_opcode (.store k), rfl, rfl, rfl⟩

lemma Item.local_wide {v : UInt16} (hv : v.toNat = slot)
    (h : a = .load k ∨ a = .store k) : (wideLocal a.opcode v).Local a slot := by
  have ha : a.opcode.action? ≠ some .increment := by
    rw [Opcode.action?_opcode]
    rcases h with rfl | rfl <;> simp
  refine ⟨proper_wideLocal ha v, by simp, rfl, fun c p => ⟨_, a, Code.decode_wideLocal ha, ?_⟩⟩
  subst hv
  rcases h with rfl | rfl
  · exact ⟨Opcode.action?_opcode (.load k), rfl, rfl, rfl⟩
  · exact ⟨Opcode.action?_opcode (.store k), rfl, rfl, rfl⟩

namespace Code

variable {c d : Code} {a : Action}

lemma shortForm?_opcode {k : Kind} (h : a = .load k ∨ a = .store k) {slot : Nat}
    (hs : slot < 4) : ∃ short b, shortForm? a.opcode = some short ∧
      (⟨short.byte + UInt8.ofInt slot⟩ : Opcode) = Action.opcode b ∧
      (a = .load k ∧ b = .loadAt k ⟨slot, hs⟩ ∨ a = .store k ∧ b = .storeAt k ⟨slot, hs⟩) := by
  unfold shortForm?
  rw [Opcode.action?_opcode]
  rcases h with rfl | rfl
  · refine ⟨_, _, rfl, ?_, .inl ⟨rfl, rfl⟩⟩
    interval_cases slot <;> cases k <;> rfl
  · refine ⟨_, _, rfl, ?_, .inr ⟨rfl, rfl⟩⟩
    interval_cases slot <;> cases k <;> rfl

/-- Only loads and stores take a slot. -/
lemma exists_action_of_emitLocal {o : Opcode} {slot : Int} (h : c.emitLocal o slot = .ok d) :
    ∃ (a : Action) (k : Kind), (a = .load k ∨ a = .store k) ∧ o = a.opcode := by
  unfold emitLocal shortForm? at h
  split at h
  · cases h
  · next hshort =>
    split at hshort
    · next k ha => exact ⟨.load k, k, .inl rfl, Opcode.eq_opcode_of_action? ha⟩
    · next k ha => exact ⟨.store k, k, .inr rfl, Opcode.eq_opcode_of_action? ha⟩
    · cases hshort

/-- A load or store of a slot is one instruction, unless the slot is too large. -/
lemma emitLocal_eq_ok {k : Kind} {slot : Nat} (ha : a = .load k ∨ a = .store k)
    (h : c.emitLocal a.opcode slot = .ok d) :
    d = c.fail (.localSlot slot) ∨ ∃ i, d = c.push i ∧ i.Local a slot := by
  unfold emitLocal at h
  obtain ⟨short, -, hshort, -⟩ := shortForm?_opcode ha (by omega : 0 < 4)
  rw [hshort] at h
  simp only at h
  split_ifs at h with h4 h255 h65535 <;> obtain rfl := Except.ok.inj h
  · obtain ⟨short', b, hshort', hb, hform⟩ := shortForm?_opcode ha (by omega : slot < 4)
    obtain rfl := Option.some.inj (hshort.symm.trans hshort')
    rw [hb]
    exact .inr ⟨_, rfl, Item.local_op rfl hform⟩
  · refine .inr ⟨_, rfl, Item.local_byte ?_ ha⟩
    rw [UInt8.ofInt, UInt8.toNat_ofNat']
    omega
  · refine .inr ⟨_, rfl, Item.local_wide ?_ ha⟩
    rw [UInt16.ofInt, UInt16.toNat_ofNat']
    omega
  · exact .inl rfl

end Code

/-- What is assembled at an offset is decoded there. -/
lemma Code.Laid.decode_of_codes {c : Code} {bs : Bytes} {hs : List ExceptionEntry} {p : Nat}
    {i : Insn} (hc : c.Laid) (hfin : c.finish = .ok (bs, hs)) (h : c.Codes p i) :
    i.offset = p ∧ Insn.decode i.offset (bs.drop i.offset) = .ok i := by
  obtain ⟨insns, hd, hmem⟩ := hc.decodes
  obtain ⟨-, -, hdec⟩ := hd.decode_of_mem (hmem h)
  obtain ⟨-, -, -, -, -, hbytes⟩ := Code.finish_eq_ok hfin
  obtain ⟨x, -, hx⟩ := h
  refine ⟨Insn.offset_of_decode hx, ?_⟩
  rwa [hbytes]

end Classwright
