import Classwright.Proofs.Bytecode.Assembly

/-!
Jump tables in assembled code.

A jump table waits for all its labels at once (`Code.emitted`), and reaches them wherever they are:
its distances take four bytes. Its bytes decode to the keys it was emitted for and to the distances
of its labels.
-/

namespace Classwright

namespace Code

variable {c d : Code} {p : Nat} {l : Label}

/-! ### Waiting for labels -/

/-- An instruction notes its labels one after another. -/
lemma foldl_refer_awaits (r : Pending) (ls : List Label) (c : Code) :
    c.Awaits (ls.foldl (fun c l => c.refer l r) c) ∧
      ∀ l ∈ ls, l.id < c.labels.size → (ls.foldl (fun c l => c.refer l r) c).Referred l := by
  induction ls generalizing c with
  | nil => exact ⟨.refl c, by simp⟩
  | cons l ls ih =>
    have hl := refer_awaits (c := c) l r
    obtain ⟨hls, href⟩ := ih (c.refer l r)
    refine ⟨hl.trans hls, fun k hk hlt => ?_⟩
    rcases List.mem_cons.1 hk with rfl | hk
    · exact hls.referred (referred_refer r hlt)
    · exact href k hk (hl.labels ▸ hlt)

/-- Code with an instruction at its end, which has noted its labels. -/
def emitted (c : Code) (i : Item) (ls : List Label) (wide reachable : Bool) : Code :=
  { ls.foldl (fun d l => d.refer l ⟨c.size, wide⟩) (c.push i) with reachable }

lemma emitTable_eq_ok {low high : Int32} {default : Label} {targets : List Label}
    (h : c.emitTable low high default targets = .ok d) :
    high.toInt - low.toInt + 1 = targets.length ∧
      d = c.emitted (.table low high default targets) (default :: targets) true false := by
  unfold emitTable at h
  split_ifs at h with hn
  exact ⟨hn, (Except.ok.inj h).symm⟩

lemma emitLookup_eq_ok {default : Label} {keys : List Int32} {targets : List Label}
    (h : c.emitLookup default keys targets = .ok d) :
    keys.length = targets.length ∧
      d = c.emitted (.lookup default (keys.zip targets)) (default :: targets) true false := by
  unfold emitLookup at h
  split_ifs at h with hn
  exact ⟨hn, (Except.ok.inj h).symm⟩

/-! ### Bytes -/

/-- A distance as it is read from the four bytes it was written to. -/
def wrapped (distance : Int) : Int := (Int32.ofInt distance).toInt

lemma wrapped_of_mem {v : Int} (h : -2 ^ 31 ≤ v ∧ v < 2 ^ 31) : wrapped v = v :=
  Int32.toInt_ofInt_of_le h.1 h.2

/-- The target of a jump table's distance, as it is decoded. -/
def farTarget (c : Code) (p : Nat) (l : Label) : Int := p + wrapped (c.distance p l)

-- The padding ends where the decoder looks for the default.
lemma drop_padding (p : Nat) (rest : Bytes) :
    (List.replicate (padding p) (0 : UInt8) ++ rest).drop (Insn.tableStart p - 1) = rest := by
  have hlen : Insn.tableStart p - 1 = (List.replicate (padding p) (0 : UInt8)).length := by
    simp only [Insn.tableStart, padding, List.length_replicate]
    omega
  rw [hlen, List.drop_left]

lemma tableStart_eq (p : Nat) : Insn.tableStart p = 1 + padding p := by
  unfold Insn.tableStart padding
  omega

lemma takeInt32s?_distances (p : Nat) (targets : List Label) :
    Bytes.takeInt32s? targets.length (targets.flatMap fun l => Bytes.ofInt32 (c.distance p l)) =
      some (targets.map fun l => wrapped (c.distance p l), []) := by
  have h := Bytes.takeInt32s?_ofInt32 (targets.map (c.distance p)) []
  simpa [List.flatMap_map, wrapped, Function.comp_def] using h

/-- A dense table decodes to its bounds and targets. -/
lemma decode_table {low high : Int32} {default : Label} {targets : List Label}
    (hle : low.toInt ≤ high.toInt) (hn : high.toInt - low.toInt + 1 = targets.length) :
    Insn.decode p (c.itemBytes p (.table low high default targets)) = .ok
      { offset := p
        len := (Item.table low high default targets).size p
        op := Action.tableSwitch.opcode
        default := c.farTarget p default
        keys := (List.range targets.length).map fun n => low.toInt + (n : Nat)
        targets := targets.map (c.farTarget p) } := by
  have hop : Opcode.action? ⟨Action.tableSwitch.opcode.byte⟩ = some .tableSwitch :=
    Opcode.action?_opcode .tableSwitch
  have hcount : (high.toInt - low.toInt + 1).toNat = targets.length := by omega
  unfold Insn.decode itemBytes
  simp only [hop]
  unfold Insn.decodeSwitch
  simp only [List.append_assoc, drop_padding, Bytes.takeInt32?_ofInt32]
  unfold Insn.decodeTable
  simp only [Bytes.takeInt32?_ofInt32, Int32.ofInt_toInt, if_neg (not_lt.2 hle), hcount,
    takeInt32s?_distances, if_true]
  simp [pure, Except.pure, Item.size, tableStart_eq, farTarget, Function.comp_def, wrapped,
    Action.opcode]

lemma evens_pairs {α : Type} (f g : α → Int) (xs : List α) :
    Insn.evens (xs.flatMap fun x => [f x, g x]) = xs.map f := by
  induction xs with
  | nil => rfl
  | cons x xs ih => simp [Insn.evens, ih]

lemma odds_pairs {α : Type} (f g : α → Int) (xs : List α) :
    Insn.odds (xs.flatMap fun x => [f x, g x]) = xs.map g := by
  induction xs with
  | nil => rfl
  | cons x xs ih => simp [Insn.odds, ih]

lemma takeInt32s?_cases (p : Nat) (cases : List (Int32 × Label)) :
    Bytes.takeInt32s? (2 * cases.length) (cases.flatMap fun (k, l) =>
        Bytes.ofInt32 k.toInt ++ Bytes.ofInt32 (c.distance p l)) =
      some (cases.flatMap fun x => [x.1.toInt, wrapped (c.distance p x.2)], []) := by
  induction cases with
  | nil => rfl
  | cons x cases ih =>
      rw [show 2 * (x :: cases).length = 2 * cases.length + 1 + 1 by simp; omega]
      simp [Bytes.takeInt32s?, Bytes.takeInt32?_ofInt32, ih, wrapped]

/-- A sparse one to its keys and targets. -/
lemma decode_lookup {default : Label} {cases : List (Int32 × Label)} (hn : cases.length < 2 ^ 31) :
    Insn.decode p (c.itemBytes p (.lookup default cases)) = .ok
      { offset := p
        len := (Item.lookup default cases).size p
        op := Action.lookupSwitch.opcode
        default := c.farTarget p default
        keys := cases.map fun x => x.1.toInt
        targets := cases.map fun x => c.farTarget p x.2 } := by
  have hop : Opcode.action? ⟨Action.lookupSwitch.opcode.byte⟩ = some .lookupSwitch :=
    Opcode.action?_opcode .lookupSwitch
  have hcount : (Int32.ofInt (cases.length : Int)).toInt = cases.length :=
    wrapped_of_mem ⟨by omega, by omega⟩
  unfold Insn.decode itemBytes
  simp only [hop]
  unfold Insn.decodeSwitch
  simp only [List.append_assoc, drop_padding, Bytes.takeInt32?_ofInt32, hcount]
  unfold Insn.decodeLookup
  simp only [if_neg (by omega : ¬ (cases.length : Int) < 0), Int.toNat_natCast, takeInt32s?_cases,
    evens_pairs, odds_pairs]
  simp [pure, Except.pure, Item.size, tableStart_eq, farTarget, Function.comp_def, wrapped,
    Action.opcode]

end Code

namespace Item

lemma proper_table {low high : Int32} {default : Label} {targets : List Label}
    (hle : low.toInt ≤ high.toInt) (hn : high.toInt - low.toInt + 1 = targets.length) :
    (table low high default targets).Proper := fun _ _ =>
  ⟨_, Code.decode_table hle hn, by rw [Code.length_itemBytes]⟩

lemma proper_lookup {default : Label} {cases : List (Int32 × Label)} (hn : cases.length < 2 ^ 31) :
    (lookup default cases).Proper := fun _ _ =>
  ⟨_, Code.decode_lookup hn, by rw [Code.length_itemBytes]⟩

end Item

end Classwright
