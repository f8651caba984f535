import Classwright.Proofs.Bytecode.Transcript
import Classwright.Proofs.Frame.Worklist

/-!
Control in code while it is assembled.

The assembler notes whether control can fall into the next instruction. `Code.Step` is one call of
the assembler with a set of offsets that control may come to, which an instruction joins if control
comes to it; `Limits` say which labels a part of the code may branch to or resolve. A part that
keeps to its limits is left by its exits only, or at its end (`Code.Tracks`).
-/

namespace Classwright

open List

/-! ### Instructions -/

variable {a : Action}

lemma Insn.jumps_eq_nil {i : Insn} {n : Nat} (ha : i.op.action? = some a)
    (hn : a.operandLength = some n) (hb : a.isBranch = false) (hw : a ≠ .gotoWide) :
    i.jumps = [] := by
  unfold jumps
  rw [ha]
  cases a <;> first | rfl | contradiction

lemma Insn.fallsThrough_eq {i : Insn} (ha : i.op.action? = some a) :
    i.fallsThrough = !a.endsBlock := by
  unfold fallsThrough
  rw [ha]
  cases a <;> rfl

/-- Branches have two bytes of operands or more. -/
lemma Action.not_branch {n : Nat} (hn : a.operandLength = some n) (hlt : n < 2) :
    a.isBranch = false ∧ a ≠ .gotoWide := by
  have htwo (hb : a.isBranch) : a.operandLength = some 2 := by
    cases a <;> first | rfl | contradiction
  refine ⟨Bool.eq_false_iff.2 fun hb => ?_, ?_⟩
  · obtain rfl := Option.some.inj ((htwo hb).symm.trans hn)
    omega
  · rintro rfl
    obtain rfl := Option.some.inj hn
    omega

namespace Emission

/-- An instruction of a fitting format, which loads or stores if it has a slot and branches if it
has a target. -/
def Sound (e : Emission) : Prop :=
  e.Fits ∧ match e with
    | slot o _ => ∃ k, o = (Action.load k).opcode ∨ o = (Action.store k).opcode
    | jump o _ => o.isBranch
    | _ => True

variable {e : Emission} {position? : Label → Option Nat} {i : Insn}

/-- The action of an instruction without a label. -/
lemma Yields.action (hs : e.Sound) (hl : e.labels = []) (h : e.Yields position? i) :
    ∃ a n, i.op.action? = some a ∧ a.operandLength = some n ∧ a.isBranch = false ∧
    a ≠ .gotoWide := by
  obtain ⟨hfit, hs⟩ := hs
  cases e with
  | plain o =>
    obtain ⟨a, rfl, hn⟩ := Code.exists_action hfit
    rw [h]
    exact ⟨a, 0, Opcode.action?_opcode a, hn, Action.not_branch hn (by omega)⟩
  | byte o v =>
    obtain ⟨a, rfl, hn⟩ := Code.exists_action hfit.1
    rw [h]
    exact ⟨a, 1, Opcode.action?_opcode a, hn, Action.not_branch hn (by omega)⟩
  | signedByte o v =>
    rw [h]
    exact ⟨.pushByte, 1, hfit, rfl, Action.not_branch rfl (by omega)⟩
  | short o v =>
    obtain ⟨⟨a, rfl, hn⟩, hb, -⟩ := hfit.imp_left Code.exists_action
    rw [Opcode.isBranch, Opcode.action?_opcode] at hb
    rw [h]
    refine ⟨a, 2, Opcode.action?_opcode a, hn, hb, ?_⟩
    rintro rfl
    cases hn
  | signedShort o v =>
    rw [h]
    exact ⟨.pushShort, 2, hfit, rfl, rfl, by decide⟩
  | interface index count =>
    rw [h]
    exact ⟨.invokeInterface, 4, Opcode.action?_opcode .invokeInterface, rfl, rfl, by decide⟩
  | slot o n =>
    obtain ⟨k, hk⟩ := hs
    obtain ⟨hgen, -⟩ := h
    cases hb : i.op.action? with
    | none =>
      unfold Opcode.general at hgen
      rw [hb] at hgen
      rcases hk with rfl | rfl <;> simp [hgen, Opcode.action?_opcode] at hb
    | some b =>
      -- Only loads and stores have such a general form.
      have hact := congrArg Opcode.action? ((Opcode.general_of_action? hb).symm.trans hgen)
      refine ⟨b, ?_⟩
      rcases hk with rfl | rfl <;> simp only [Opcode.action?_opcode, Option.some.injEq] at hact <;>
        cases b <;> simp [Action.general] at hact <;>
        exact ⟨_, rfl, rfl, Action.not_branch rfl (by omega)⟩
  | jump | table | lookup => cases hl

/-- A decoded instruction jumps to the labels it was emitted with. -/
lemma Yields.jumps (hs : e.Sound) (h : e.Yields position? i) {t : Int} (ht : t ∈ i.jumps) :
    ∃ l ∈ e.labels, ∃ q : Nat, position? l = some q ∧ t = q := by
  have hfar {default : Label} {targets : List Label} {d : Nat} {ts : List Nat}
      (hd : position? default = some d) (hts : targets.map position? = ts.map some)
      (ht : t ∈ (d : Int) :: ts.map Int.ofNat) :
      ∃ l ∈ default :: targets, ∃ q : Nat, position? l = some q ∧ t = q := by
    rcases mem_cons.1 ht with rfl | ht
    · exact ⟨default, mem_cons_self, d, hd, rfl⟩
    · obtain ⟨q, hq, rfl⟩ := mem_map.1 ht
      obtain ⟨l, hl, hlq⟩ := mem_map.1 (hts ▸ mem_map_of_mem (f := some) hq)
      exact ⟨l, mem_cons_of_mem _ hl, q, hlq, rfl⟩
  cases e with
  | jump o l =>
    obtain ⟨q, hq, hi⟩ := h
    obtain ⟨a, ha, hb⟩ := (Option.any_eq_true _ _).1 hs.2
    have hi' : i.op.action? = some a := by rw [hi, ha]
    have hjumps : i.jumps = [i.operand] := by
      unfold Insn.jumps
      rw [hi']
      cases a <;> first | rfl | cases hb
    rw [hjumps, hi, mem_singleton] at ht
    exact ⟨l, mem_singleton_self l, q, hq, ht⟩
  | table | lookup =>
    obtain ⟨d, ts, hd, hts, hi⟩ := h
    unfold Insn.jumps at ht
    rw [hi, Opcode.action?_opcode] at ht
    exact hfar hd hts ht
  | _ =>
    obtain ⟨a, n, ha, hn, hb, hw⟩ := h.action hs rfl
    simp [Insn.jumps_eq_nil ha hn hb hw] at ht

lemma Yields.falls (hs : e.Sound) (h : e.Yields position? i) (hi : i.fallsThrough) : e.falls := by
  cases e with
  | plain o =>
    obtain ⟨a, n, ha, -⟩ := h.action hs rfl
    have ho : o.action? = some a := by rw [← ha, h]
    rw [Insn.fallsThrough_eq ha] at hi
    rwa [Emission.falls, Opcode.endsBlock, ho]
  | jump o l =>
    obtain ⟨q, -, h⟩ := h
    obtain ⟨a, ha, -⟩ := (Option.any_eq_true _ _).1 hs.2
    rw [Insn.fallsThrough_eq (by rw [h, ha])] at hi
    rwa [Emission.falls, Opcode.endsBlock, ha]
  | table | lookup =>
    obtain ⟨d, ts, -, -, h⟩ := h
    unfold Insn.fallsThrough at hi
    rw [h, Opcode.action?_opcode] at hi
    cases hi
  | _ => rfl

end Emission

/-! ### Emitting -/

namespace Code

variable {c d : Code} {e : Emission} {l k : Label} {p q : Nat}

/-- Other labels are as they were. -/
lemma labelState_emission (h : c.emission e = .ok d) (hk : k ∉ e.labels) :
    d.labelState k = c.labelState k := by
  have hfold (ls : List Label) (r : Pending) (hk : k ∉ ls) (d : Code) :
      (ls.foldl (fun d l => d.refer l r) d).labelState k = d.labelState k := by
    induction ls generalizing d with
    | nil => rfl
    | cons l ls ih =>
      rw [mem_cons, not_or] at hk
      rw [foldl_cons, ih hk.2, labelState_refer _ hk.1]
  rcases emission_eq h with ⟨-, -, err, rfl⟩ | ⟨i, wide, -, -, rfl⟩
  · obtain ⟨error, he⟩ := fail_eq (c := c) err
    rw [he]
    rfl
  · exact hfold e.labels _ hk (c.push i)

lemma sound_of_emission (hfit : e.Fits) (h : c.emission e = .ok d) : e.Sound := by
  refine ⟨hfit, ?_⟩
  cases e with
  | slot o n =>
    replace h : c.emitLocal o n = .ok d := h
    obtain ⟨a, k, rfl | rfl, rfl⟩ := exists_action_of_emitLocal h
    · exact ⟨k, .inl rfl⟩
    · exact ⟨k, .inr rfl⟩
  | jump o l => exact (emitJump_eq_ok h).1
  | _ => trivial

lemma Pushes.extends {i : Item} (h : c.Pushes i d) : c.Extends d where
  items := h.items ▸ suffix_cons _ _
  guards := h.guards ▸ suffix_refl _
  labels := h.labels.ge
  position hp := (h.position _).trans hp
  referred := h.referred
  error := h.error

lemma extends_emission (hfit : e.Fits) (hl : ∀ l ∈ e.labels, l.id < c.labels.size)
    (h : c.emission e = .ok d) :
    c.Extends d ∧ c.size ≤ d.size ∧ ∀ l, d.position? l = c.position? l := by
  rcases emission_eq_ok hfit hl h with ⟨err, rfl⟩ | ⟨i, -, hp⟩
  · obtain ⟨error, he⟩ := fail_eq (c := c) err
    exact ⟨(fail_grows err).toExtends, by rw [he], fun _ => by rw [he]; rfl⟩
  · exact ⟨hp.extends, by rw [hp.size]; omega, hp.position⟩

/-! ### Steps -/

/-- Control comes to an offset: it is one of some that are known, or the end of code which control
comes to. -/
def Reaches (c : Code) (live : Set Nat) (q : Nat) : Prop := q ∈ live ∨ q = c.size ∧ c.reachable

/-- A label is resolved to an offset that control comes to. -/
def Anchored (c : Code) (live : Set Nat) (l : Label) : Prop :=
  ∃ q, c.position? l = some q ∧ c.Reaches live q

/-- The offsets that control may come to once an instruction more is emitted. -/
def enlivened (c : Code) (live : Set Nat) : Set Nat := {q | c.Reaches live q}

end Code

/-- What a part of the code keeps to. Labels from `known` on are its own, which it resolves, and it
branches to those or to the `exits`. What it protects begins at `start` or later. -/
structure Limits where
  known : Nat := 0
  start : Nat := 0
  exits : Set Label := Set.univ

namespace Code

/-- A step of assembling within limits, and the offsets that control may come to. Branches back go
to where control comes; a range is protected once it is complete, by a handler that comes next. -/
inductive Step (b : Limits) : Code × Set Nat → Code × Set Nat → Prop
  | emission {c d : Code} {live : Set Nat} {e : Emission} (fits : e.Fits)
      (known : ∀ l ∈ e.labels, l.id < c.labels.size)
      (exits : ∀ l ∈ e.labels, l ∈ b.exits ∨ b.known ≤ l.id)
      (back : ∀ l ∈ e.labels, c.position? l ≠ none → c.Anchored live l)
      (done : c.emission e = .ok d) : Step b (c, live) (d, c.enlivened live)
  | newLabel {c : Code} {live : Set Nat} (own : b.known ≤ c.labels.size) :
      Step b (c, live) (c.newLabel.2, live)
  | here {c : Code} {live : Set Nat} (own : b.known ≤ c.labels.size) :
      Step b (c, live) (c.here.2, live)
  | mark {c d : Code} {live : Set Nat} {l : Label} (known : l.id < c.labels.size)
      (own : b.known ≤ l.id) (done : c.mark l = .ok d) : Step b (c, live) (d, live)
  | join {c d : Code} {live : Set Nat} {l : Label} (known : l.id < c.labels.size)
      (own : b.known ≤ l.id) (done : c.join l = .ok d) : Step b (c, live) (d, live)
  | handler {c d : Code} {live : Set Nat} {gs : List Guard} {l : Label}
      (known : l.id < c.labels.size) (own : b.known ≤ l.id)
      (guards : ∀ g ∈ gs, g.handler = l ∧ (∃ p, c.position? g.start = some p ∧ b.start ≤ p) ∧
        c.position? g.stop ≠ none)
      (done : (gs.foldl guard c).mark l = .ok d) : Step b (c, live) (d, live)

/-- A run of the assembler within limits. -/
def Runs (b : Limits) : Code × Set Nat → Code × Set Nat → Prop := Relation.ReflTransGen (Step b)

variable {b b' : Limits} {c d : Code} {e : Emission} {l : Label} {p : Nat} {x y z : Code × Set Nat}
  {live : Set Nat}

/-! ### What a step does -/

/-- A range that is protected within limits, by a handler that control may come to. -/
structure Protects (b : Limits) (c : Code) (live : Set Nat) (first : Nat) (g : Guard) : Prop where
  start : ∃ p, c.position? g.start = some p ∧ b.start ≤ p
  stop : c.position? g.stop ≠ none
  handler : ∃ q, c.position? g.handler = some q ∧ first ≤ q ∧ c.Reaches live q

/-- What assembling within limits does: labels are resolved behind the code before, those of others
stay, and where control comes it still comes later. -/
structure Advances (b : Limits) (x y : Code × Set Nat) : Prop where
  keeps : x.1.Extends y.1
  size : x.1.size ≤ y.1.size
  laid : y.1.size ≤ 65535 → x.1.Laid → y.1.Laid
  far : (∀ i ∈ x.1.items, ∀ l ∈ i.farLabels, x.1.Referred l) →
    ∀ i ∈ y.1.items, ∀ l ∈ i.farLabels, y.1.Referred l
  old : ∀ {l}, l.id < b.known → y.1.position? l = x.1.position? l
  quiet : ∀ {l}, l.id < b.known → l ∉ b.exits → y.1.Referred l → x.1.Referred l
  placed : ∀ {l q}, y.1.position? l = some q → x.1.position? l = some q ∨ x.1.size ≤ q
  reaches : ∀ {q}, x.1.Reaches x.2 q → y.1.Reaches y.2 q
  waits : ∀ {l}, x.1.position? l = none → x.1.Referred l → y.1.position? l ≠ none →
    y.1.Anchored y.2 l
  guards : ∀ g ∈ y.1.guards, g ∈ x.1.guards ∨ y.1.Protects b y.2 x.1.size g

namespace Advances

lemma refl (b : Limits) (x : Code × Set Nat) : Advances b x x :=
  ⟨.refl _, le_rfl, fun _ => id, id, fun _ => rfl, fun _ _ => id, .inl, id,
    fun hn _ h => absurd hn h, fun _ => .inl⟩

lemma anchored (h : Advances b x y) {l : Label} (hl : x.1.Anchored x.2 l) : y.1.Anchored y.2 l := by
  obtain ⟨q, hq, hr⟩ := hl
  exact ⟨q, h.keeps.position hq, h.reaches hr⟩

lemma protects (h : Advances b x y) {g : Guard} {first : Nat} (hg : x.1.Protects b x.2 first g) :
    y.1.Protects b y.2 first g := by
  obtain ⟨⟨p, hp, hle⟩, hstop, ⟨q, hq, hfirst, hr⟩⟩ := hg
  obtain ⟨t, ht⟩ := Option.ne_none_iff_exists'.1 hstop
  exact ⟨⟨p, h.keeps.position hp, hle⟩, by simp [h.keeps.position ht],
    ⟨q, h.keeps.position hq, hfirst, h.reaches hr⟩⟩

lemma trans (h : Advances b x y) (h' : Advances b y z) : Advances b x z where
  keeps := h.keeps.trans h'.keeps
  size := h.size.trans h'.size
  laid hz hx := h'.laid hz (h.laid (h'.size.trans hz) hx)
  far hx := h'.far (h.far hx)
  old hl := (h'.old hl).trans (h.old hl)
  quiet hl hx hr := h.quiet hl hx (h'.quiet hl hx hr)
  placed hq := by
    rcases h'.placed hq with hq | hq
    · exact h.placed hq
    · exact .inr (h.size.trans hq)
  reaches hq := h'.reaches (h.reaches hq)
  waits {l} hn hr hz := by
    by_cases hy : y.1.position? l = none
    · exact h'.waits hy (h.keeps.referred hr) hz
    · exact h'.anchored (h.waits hn hr hy)
  guards g hg := by
    rcases h'.guards g hg with hg | hg
    · exact (h.guards g hg).imp_right h'.protects
    · obtain ⟨q, hq, hle, hr⟩ := hg.handler
      exact .inr { hg with handler := ⟨q, hq, h.size.trans hle, hr⟩ }

end Advances

/-- Resolving a label that control comes to if it comes to the end or branches there. -/
lemma advances_marked {r : Bool} {err : Option CodeError} (gs : List Guard)
    (hlt : l.id < c.labels.size) (own : b.known ≤ l.id) (hl : c.position? l = none)
    (he : err = none → c.error = none ∧ ∀ r ∈ (c.labelState l).pending, r.wide = false →
    InReach r.insn c.size) (hr : c.reachable ∨ (c.labelState l).pending ≠ [] → r)
    (hg : ∀ g ∈ gs, r ∧ g.handler = l ∧ (∃ p, c.position? g.start = some p ∧ b.start ≤ p) ∧
    c.position? g.stop ≠ none) :
    Advances b (c, live) (({ c with guards := gs ++ c.guards } : Code).marked l r err, live) := by
  obtain ⟨c', hc'⟩ : ∃ c' : Code, c' = { c with guards := gs ++ c.guards } := ⟨_, rfl⟩
  have hadd : c.Grows c' := by
    subst hc'
    exact ⟨⟨suffix_refl _, suffix_append _ _, le_rfl, id, id, id⟩,
      fun hc => ⟨hc.size, hc.proper, hc.position, hc.known, hc.linked⟩, le_rfl⟩
  have hmark : c'.Grows (c'.marked l r err) := by
    subst hc'
    exact marked_grows hl he
  have hgrows := hadd.trans hmark
  have hstate (k : Label) : (c'.marked l r err).labelState k =
      if k = l ∧ l.id < c'.labels.size then ⟨some c'.size, []⟩ else c'.labelState k :=
        labelState_marked
  have hat : (c'.marked l r err).position? l = some c.size := by
    subst hc'
    exact position?_marked hlt
  have hother {k : Label} (hk : k ≠ l) : (c'.marked l r err).labelState k = c.labelState k := by
    rw [hstate, if_neg fun h => hk h.1, hc']
    rfl
  rw [← hc']
  refine ⟨hgrows.toExtends, by rw [hc']; rfl, fun _ => hgrows.laid, fun h i hi k hk => ?_,
    fun {k} hk => ?_, fun {k} hk _ h => ?_, fun {k q} hq => ?_, fun {q} hq => ?_,
    fun {k} hn hk h => ?_, fun g hgd => ?_⟩
  · exact hgrows.referred (h i (by rwa [hc'] at hi) k hk)
  · have hne : k ≠ l := by
      rintro rfl
      omega
    rw [position?, hother hne]
    rfl
  · have hne : k ≠ l := by
      rintro rfl
      omega
    rwa [Referred, position?, hother hne] at h
  · by_cases hne : k = l
    · subst hne
      exact .inr (Option.some.inj (hat.symm.trans hq)).le
    · rw [position?, hother hne] at hq
      exact .inl hq
  · rcases hq with hq | ⟨rfl, hreach⟩
    · exact .inl hq
    · exact .inr ⟨by rw [hc']; rfl, hr (.inl hreach)⟩
  · have hkl : k = l := by
      by_contra hne
      rw [position?, hother hne] at h
      exact h hn
    subst hkl
    exact ⟨c.size, hat, .inr ⟨by rw [hc']; rfl, hr (.inr (hk.resolve_left (by simp [hn])))⟩⟩
  · rw [hc'] at hgd
    rcases mem_append.1 hgd with hgd | hgd
    · obtain ⟨hreach, hhandler, ⟨p, hp, hle⟩, hstop⟩ := hg g hgd
      obtain ⟨t, ht⟩ := Option.ne_none_iff_exists'.1 hstop
      refine .inr ⟨⟨p, hgrows.position hp, hle⟩, by simp [hgrows.position ht],
        ⟨c.size, ?_, le_rfl, ?_⟩⟩
      · rwa [hhandler]
      · exact .inr ⟨by rw [hc']; rfl, hreach⟩
    · exact .inl hgd

/-- A label more, resolved to the end of the code or not at all. -/
lemma advances_label {s : LabelState} (own : b.known ≤ c.labels.size)
    (hs : s = {} ∨ s = ⟨some c.size, []⟩) :
    Advances b (c, live) ({ c with labels := c.labels.push s }, live) := by
  have hgrows := grows_push_label (c := c) s (by rcases hs with rfl | rfl <;> simp)
  have hnew {k : Label} (hk : k.id = c.labels.size) : c.labelState k = {} :=
    not_referred_of_le hk.ge
  refine ⟨hgrows.toExtends, le_rfl, fun _ => hgrows.laid,
    fun h i hi k hk => hgrows.referred (h i hi k hk), fun {k} hk => ?_, fun {k} hk _ h => ?_,
    fun {k q} hq => ?_, id, fun {k} hn hk h => ?_, fun _ => .inl⟩
  · rw [position?, labelState_push, if_neg (by omega)]
    rfl
  · rwa [Referred, position?, labelState_push, if_neg (by omega)] at h
  · rw [position?, labelState_push] at hq
    split_ifs at hq with hid
    · rcases hs with rfl | rfl
      · cases hq
      · exact .inr (Option.some.inj hq).le
    · exact .inl hq
  · have hid : k.id ≠ c.labels.size := fun hid => by simp [Referred, position?, hnew hid] at hk
    rw [position?, labelState_push, if_neg hid] at h
    exact absurd hn h

lemma advances_emission (hfit : e.Fits) (hl : ∀ l ∈ e.labels, l.id < c.labels.size)
    (exits : ∀ l ∈ e.labels, l ∈ b.exits ∨ b.known ≤ l.id) (h : c.emission e = .ok d) :
    Advances b (c, live) (d, c.enlivened live) := by
  obtain ⟨hext, hsize, hpos⟩ := extends_emission hfit hl h
  refine ⟨hext, hsize, fun hd hc => ?_, fun hfar i hi k hk => ?_, fun _ => hpos _,
    fun {k} hk hx hr => ?_, fun hq => .inl (hpos _ ▸ hq), .inl,
    fun hn _ hd => absurd ((hpos _).trans hn) hd, fun g hg => ?_⟩
  · rcases emission_eq_ok hfit hl h with ⟨err, rfl⟩ | ⟨i, -, hp⟩
    · exact (fail_grows err).laid hc
    · exact hp.laid hd hc
  · rcases emission_eq_ok hfit hl h with ⟨err, rfl⟩ | ⟨j, -, hp⟩
    · obtain ⟨error, he⟩ := fail_eq (c := c) err
      dsimp only at hi
      rw [he] at hi
      exact hext.referred (hfar i hi k hk)
    · dsimp only at hi
      rw [hp.items] at hi
      rcases mem_cons.1 hi with rfl | hi
      · exact hp.far k hk
      · exact hext.referred (hfar i hi k hk)
  · have hk' : k ∉ e.labels := fun hmem => (exits k hmem).elim hx (by omega)
    rwa [Referred, position?, labelState_emission h hk'] at hr
  · rcases emission_eq_ok hfit hl h with ⟨err, rfl⟩ | ⟨j, -, hp⟩
    · obtain ⟨error, he⟩ := fail_eq (c := c) err
      exact .inl (by simpa [he] using hg)
    · exact .inl (hp.guards ▸ hg)

lemma foldl_guard (gs : List Guard) (c : Code) :
    gs.foldl guard c = { c with guards := gs.reverse ++ c.guards } := by
  induction gs generalizing c with
  | nil => rfl
  | cons g gs ih => simp [ih, guard]

lemma Step.advances (h : Step b x y) : Advances b x y := by
  cases h with
  | emission fits known exits _ done => exact advances_emission fits known exits done
  | newLabel own => exact advances_label own (.inl rfl)
  | here own => exact advances_label own (.inr rfl)
  | mark known own done =>
    obtain ⟨hl, err, rfl, he⟩ := mark_eq_ok done
    exact advances_marked [] known own hl he (fun _ => rfl) (by simp)
  | join known own done =>
    obtain ⟨hl, err, rfl, he⟩ := join_eq_ok done
    refine advances_marked [] known own hl he (fun hr => ?_) (by simp)
    rcases hr with hr | hr
    · simp [hr]
    · simp [hr]
  | handler known own guards done =>
    rw [foldl_guard] at done
    obtain ⟨hl, err, rfl, he⟩ := mark_eq_ok done
    exact advances_marked _ known own hl he (fun _ => rfl)
      fun g hg => ⟨rfl, guards g (mem_reverse.1 hg)⟩

lemma Runs.advances (h : Runs b x y) : Advances b x y := by
  induction h with
  | refl => exact .refl b x
  | tail _ hstep ih => exact ih.trans hstep.advances

/-! ### Parts of parts -/

/-- Narrower limits, of a part within a part. -/
structure Narrows (b b' : Limits) : Prop where
  known : b.known ≤ b'.known
  start : b.start ≤ b'.start
  exits : ∀ l ∈ b'.exits, l ∈ b.exits ∨ b.known ≤ l.id

lemma Step.mono (hb : Narrows b b') (h : Step b' x y) : Step b x y := by
  cases h with
  | emission fits known exits back done =>
    refine .emission fits known (fun l hl => ?_) back done
    rcases exits l hl with hx | hx
    · exact hb.exits l hx
    · exact .inr (hb.known.trans hx)
  | newLabel own => exact .newLabel (hb.known.trans own)
  | here own => exact .here (hb.known.trans own)
  | mark known own done => exact .mark known (hb.known.trans own) done
  | join known own done => exact .join known (hb.known.trans own) done
  | handler known own guards done =>
    refine .handler known (hb.known.trans own) (fun g hg => ?_) done
    obtain ⟨hh, ⟨p, hp, hle⟩, hstop⟩ := guards g hg
    exact ⟨hh, ⟨p, hp, hb.start.trans hle⟩, hstop⟩

lemma Runs.mono (hb : Narrows b b') (h : Runs b' x y) : Runs b x y :=
  Relation.ReflTransGen.mono (fun _ _ => Step.mono hb) _ _ h

/-- What is assembled behind some code, and protects none of it. -/
structure Appends (c d : Code) : Prop where
  keeps : c.Extends d
  size : c.size ≤ d.size
  guards : ∀ g ∈ d.guards, g ∈ c.guards ∨ ∃ p, d.position? g.start = some p ∧ c.size ≤ p

lemma Appends.refl (c : Code) : Appends c c := ⟨.refl c, le_rfl, fun _ => .inl⟩

lemma Appends.trans {e : Code} (h : Appends c d) (h' : Appends d e) : Appends c e where
  keeps := h.keeps.trans h'.keeps
  size := h.size.trans h'.size
  guards g hg := by
    rcases h'.guards g hg with hg | ⟨p, hp, hle⟩
    · exact (h.guards g hg).imp_right fun ⟨p, hp, hle⟩ => ⟨p, h'.keeps.position hp, hle⟩
    · exact .inr ⟨p, hp, h.size.trans hle⟩

lemma Advances.appends (h : Advances b x y) (hb : x.1.size ≤ b.start) : Appends x.1 y.1 where
  keeps := h.keeps
  size := h.size
  guards g hg := (h.guards g hg).imp_right fun hg => by
    obtain ⟨p, hp, hle⟩ := hg.start
    exact ⟨p, hp, hb.trans hle⟩

/-! ### Flow -/

/-- Control goes on from an offset to offsets that control comes to, or to exits. -/
def Flows (b : Limits) (c : Code) (live : Set Nat) (p : Nat) : Prop :=
  ∃ (e : Emission) (i : Item), e.Sound ∧ e.Emits i ∧ c.At p i ∧
    (e.falls → c.Reaches live (p + i.size p)) ∧
    ∀ l ∈ e.labels, (l ∈ b.exits ∨ b.known ≤ l.id) ∧ c.Referred l ∧
      (c.position? l ≠ none → c.Anchored live l)

lemma Flows.advance (h : Advances b x y) (hp : x.1.Flows b x.2 p) : y.1.Flows b y.2 p := by
  obtain ⟨e, i, hs, he, hat, hfall, hl⟩ := hp
  refine ⟨e, i, hs, he, h.keeps.at hat, fun hf => h.reaches (hfall hf), fun l hmem => ?_⟩
  obtain ⟨hexit, hr, ha⟩ := hl l hmem
  refine ⟨hexit, h.keeps.referred hr, fun hy => ?_⟩
  by_cases hn : x.1.position? l = none
  · exact h.waits hn hr hy
  · exact h.anchored (ha hn)

/-- From what is assembled behind a place, control goes on within it, to exits or to its end. -/
structure Tracks (b : Limits) (first : Nat) (c : Code) (live : Set Nat) : Prop where
  size : c.size = extent c.items
  inside : ∀ p ∈ live, first ≤ p ∧ p < c.size
  flows : ∀ p ∈ live, c.Flows b live p

lemma Tracks.advance {first : Nat} (ht : Tracks b first x.1 x.2) (hadv : Advances b x y)
    (hitems : y.1.items = x.1.items) (hsize : y.1.size = x.1.size) (hlive : y.2 = x.2) :
    Tracks b first y.1 y.2 :=
  ⟨by rw [hsize, hitems, ht.size], fun p hp => by rw [hsize]; exact ht.inside p (hlive ▸ hp),
    fun p hp => .advance hadv (ht.flows p (hlive ▸ hp))⟩

lemma Tracks.emission {first : Nat} (ht : Tracks b first c live) (hfirst : first ≤ c.size)
    (hfit : e.Fits) (hl : ∀ l ∈ e.labels, l.id < c.labels.size)
    (exits : ∀ l ∈ e.labels, l ∈ b.exits ∨ b.known ≤ l.id)
    (back : ∀ l ∈ e.labels, c.position? l ≠ none → c.Anchored live l) (h : c.emission e = .ok d) :
    (∃ err, d = c.fail err) ∨ Tracks b first d (c.enlivened live) := by
  have hadv : Advances b (c, live) (d, c.enlivened live) := advances_emission hfit hl exits h
  rcases emission_eq_ok hfit hl h with herr | ⟨i, hi, hp⟩
  · exact .inl herr
  have hsize : d.size = extent d.items := by rw [hp.size, hp.items, ht.size, extent]
  have hpos := i.size_pos c.size
  refine .inr ⟨hsize, fun q hq => ?_, fun q hq => ?_⟩
  · rcases hq with hq | ⟨rfl, -⟩
    · have := ht.inside q hq
      have := hp.size
      omega
    · have := hp.size
      omega
  · rcases hq with hq | ⟨rfl, hr⟩
    · exact Flows.advance hadv (ht.flows q hq)
    · refine ⟨e, i, sound_of_emission hfit h, hi, ⟨c.items, hp.items ▸ suffix_refl _, ht.size.symm⟩,
        fun hf => .inr ⟨hp.size.symm, ?_⟩, fun l hmem =>
        ⟨exits l hmem, referred_emission hmem (hl l hmem) h,
          fun hn => hadv.anchored (back l hmem ?_)⟩⟩
      · rw [reachable_emission h, hr, hf]
        rfl
      · rwa [← hp.position]

/-- A run of the assembler keeps track of where control goes. -/
lemma Runs.tracks (h : Runs b (c, ∅) (d, live)) (hc : c.size = extent c.items)
    (hd : d.error = none) : Tracks b c.size d live := by
  have hrun (y : Code × Set Nat) (h : Runs b (c, ∅) y) (hy : y.1.error = none) :
      Tracks b c.size y.1 y.2 := by
    induction h with
    | refl => exact ⟨hc, by simp, by simp⟩
    | tail hrun hstep ih =>
      have hadv := hstep.advances
      have ih := ih (hadv.keeps.error hy)
      cases hstep with
      | emission fits known exits back done =>
        refine (ih.emission (Runs.advances hrun).size fits known exits back done).resolve_left ?_
        rintro ⟨err, rfl⟩
        exact fail_error_ne_none err hy
      | newLabel own | here own => exact ih.advance hadv rfl rfl rfl
      | mark known own done =>
        obtain ⟨-, err, rfl, -⟩ := mark_eq_ok done
        exact ih.advance hadv rfl rfl rfl
      | join known own done =>
        obtain ⟨-, err, rfl, -⟩ := join_eq_ok done
        exact ih.advance hadv rfl rfl rfl
      | handler known own guards done =>
        rw [foldl_guard] at done
        obtain ⟨-, err, rfl, -⟩ := mark_eq_ok done
        exact ih.advance hadv rfl rfl rfl
  exact hrun (d, live) h hd

/-! ### Finished code -/

/-- Offsets of finished code that control leaves to those from `stop` on only. -/
structure Confines (c : Code) (hs : List ExceptionEntry) (live : Set Nat) (stop : Nat) : Prop where
  codes : ∀ p ∈ live, ∃ insn, c.Codes p insn ∧
    (∀ t ∈ insn.jumps, ∃ q : Nat, t = q ∧ (q ∈ live ∨ stop ≤ q)) ∧
    (insn.fallsThrough → insn.next ∈ live ∨ stop ≤ insn.next)
  handlers : ∀ p ∈ live, ∀ h ∈ hs, h.covers p → h.handler.toNat ∈ live ∨ stop ≤ h.handler.toNat

/-- An extent of finished code that control leaves to offsets from `stop` on only. Its start is in
it, or behind it all. -/
def Confined (c : Code) (hs : List ExceptionEntry) (stop : Nat) (x : Nat × Nat) : Prop :=
  ∃ live, c.Confines hs live stop ∧ (∀ p ∈ live, x.1 ≤ p ∧ p < x.2) ∧ (x.1 ∈ live ∨ stop ≤ x.1)

lemma confined_end (c : Code) (hs : List ExceptionEntry) (stop : Nat) :
    c.Confined hs stop (stop, stop) :=
  ⟨∅, ⟨by simp, by simp⟩, by simp, .inr le_rfl⟩

variable {bs : Bytes} {hs : List ExceptionEntry}

/-- A row of the exception table is one of a protected range. -/
lemma Laid.guard_of_mem (hc : c.Laid) (hfin : c.finish = .ok (bs, hs)) {h : ExceptionEntry}
    (hh : h ∈ hs) : ∃ g ∈ c.guards, c.position? g.start = some h.start.toNat ∧
    c.position? g.stop = some h.stop.toNat ∧ c.position? g.handler = some h.handler.toNat := by
  obtain ⟨-, -, hsize, -, hhandlers, -⟩ := finish_eq_ok hfin
  obtain ⟨-, hrows⟩ := handlers?_eq_some (fun hq => (hc.position hq).trans hsize) hhandlers
  obtain ⟨g, hg, hrow⟩ := mem_filterMap.1 (hrows ▸ mem_map_of_mem hh)
  refine ⟨g, mem_reverse.1 hg, ?_⟩
  unfold Guard.row? at hrow
  simp only [Option.bind_eq_bind, Option.bind_eq_some_iff, Option.ite_none_right_eq_some,
    Option.some.injEq, Prod.mk.injEq] at hrow
  obtain ⟨first, hfirst, last, hlast, handler, hhandler, -, rfl, rfl, rfl, -⟩ := hrow
  exact ⟨hfirst, hlast, hhandler⟩

/-- What is assembled within limits, followed by the rest of a larger part that protects its own
code only, is left by way of the exits and behind that larger part. -/
lemma Runs.confines {s t : Code} {L L' : Set Nat} (hbody : Runs b (c, ∅) (d, live))
    (hrest : Appends d s) (hafter : Advances b' (s, L) (t, L')) (hc : c.size = extent c.items)
    (hguards : ∀ g ∈ c.guards, ∃ q ≤ c.size, c.position? g.stop = some q) (hlaid : t.Laid)
    (hfar : ∀ i ∈ t.items, ∀ l ∈ i.farLabels, t.Referred l) (hfin : t.finish = .ok (bs, hs))
    (hsettled : ∀ l, b.known ≤ l.id → d.Referred l → d.position? l ≠ none)
    (hexits : ∀ l ∈ b.exits, ∀ q, t.position? l = some q → s.size ≤ q)
    (hend : d.reachable → s.size ≤ d.size) : t.Confines hs live s.size := by
  have hext : d.Extends t := hrest.keeps.trans hafter.keeps
  have htracks := hbody.tracks hc (hext.error (finish_eq_ok hfin).1)
  have hreach {q : Nat} (hq : d.Reaches live q) : q ∈ live ∨ s.size ≤ q := by
    rcases hq with hq | ⟨rfl, hr⟩
    · exact .inl hq
    · exact .inr (hend hr)
  refine ⟨fun p hp => ?_, fun p hp h hh hcov => ?_⟩
  · obtain ⟨e, i, hs, he, hat, hfall, hlabels⟩ := htracks.flows p hp
    have hat' := hext.at hat
    obtain ⟨insn, hdec, hlen⟩ := hlaid.proper i hat'.mem t p
    have hy := hlaid.yields hfin hat' (hfar i hat'.mem) hs.1 he hdec
    refine ⟨insn, ⟨i, hat', hdec⟩, fun u hu => ?_, fun hf => ?_⟩
    · obtain ⟨l, hl, q, hq, rfl⟩ := hy.jumps hs hu
      refine ⟨q, rfl, ?_⟩
      obtain ⟨hexit, hr, hanchor⟩ := hlabels l hl
      by_cases hn : d.position? l = none
      · rcases hexit with hexit | hown
        · exact .inr (hexits l hexit q hq)
        · exact absurd hn (hsettled l hown hr)
      · obtain ⟨q', hq', hr⟩ := hanchor hn
        obtain rfl := Option.some.inj (hq.symm.trans (hext.position hq'))
        exact hreach hr
    · have hnext : insn.next = p + i.size p := by
        rw [Insn.next, Insn.offset_of_decode hdec, hlen, length_itemBytes]
      rw [hnext]
      exact hreach (hfall (hy.falls hs hf))
  · simp only [ExceptionEntry.covers, Bool.and_eq_true, decide_eq_true_eq] at hcov
    obtain ⟨g, hg, hgstart, hgstop, hghandler⟩ := hlaid.guard_of_mem hfin hh
    obtain ⟨hfirst, hlast⟩ := htracks.inside p hp
    rcases hafter.guards g hg with hg | hg
    · rcases hrest.guards g hg with hg | hg
      · rcases hbody.advances.guards g hg with hg | hg
        · obtain ⟨q, hle, hq⟩ := hguards g hg
          have hext' : c.Extends t := hbody.advances.keeps.trans hext
          obtain rfl := Option.some.inj (hgstop.symm.trans (hext'.position hq))
          omega
        · obtain ⟨q, hq, -, hr⟩ := hg.handler
          obtain rfl := Option.some.inj (hghandler.symm.trans (hext.position hq))
          exact hreach hr
      · obtain ⟨q, hq, hle⟩ := hg
        obtain rfl := Option.some.inj (hgstart.symm.trans (hafter.keeps.position hq))
        omega
    · obtain ⟨q, hq, hle, -⟩ := hg.handler
      obtain rfl := Option.some.inj (hghandler.symm.trans hq)
      exact .inr hle

end Code

end Classwright
