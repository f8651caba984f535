import Classwright.Proofs.Lowering.Running
import Classwright.Proofs.Number

/-!
Constants that are loaded.

A constant is pushed by one instruction, whose bytes are decoded and run wherever they stand
(`Item.Pushes`). One that goes through the pool is found there unless it was lost to an overflow,
which does not depend on whether the pool had overflowed before (`Pool.Blind`). Main statement:
`pushConst_loads`.
-/

namespace Classwright

open Machine (Value)

/-! ### Pools that have overflowed -/

namespace Pool

/-- A pool as if it had not overflowed so far. -/
def cleared (p : Pool) : Pool := { p with overflowed := false }

/-- Computations that do not look at whether the pool has overflowed. -/
def Blind {α : Type} (m : PoolM α) : Prop :=
  ∀ (p : Pool) (b : Bool),
    ∃ b', m { p with overflowed := b } = ((m p).1, { (m p).2 with overflowed := b' })

lemma blind_add (e : Entry) : Blind (add e) := by
  intro p b
  cases hi : p.index[e]? with
  | some i => exact ⟨b, by simp only [add, hi]⟩
  | none =>
    by_cases h : p.entries.size + e.slots > limit
    · exact ⟨true, by simp only [add, count, hi, h, if_true]⟩
    · exact ⟨b, by simp only [add, count, hi, h, if_false]⟩

lemma Blind.bind {α β : Type} {m : PoolM α} {f : α → PoolM β} (hm : Blind m)
    (hf : ∀ a, Blind (f a)) : Blind (m >>= f) := by
  intro p b
  obtain ⟨b₁, h₁⟩ := hm p b
  obtain ⟨b₂, h₂⟩ := hf (m p).1 (m p).2 b₁
  refine ⟨b₂, ?_⟩
  show f (m { p with overflowed := b }).1 (m { p with overflowed := b }).2 = _
  rw [h₁]
  exact h₂

end Pool

/-! ### Instructions -/

/-- An item whose bytes, wherever they stand, are decoded to an instruction that pushes a value. -/
def Item.Pushes (item : Item) (p : Pool) (w : Value) : Prop :=
  ∀ (c : Code) (offset : Nat) (rest : Bytes), ∃ i,
    Insn.decode offset (c.itemBytes offset item ++ rest) = .ok i ∧
      i.len = (c.itemBytes offset item).length ∧
      ∀ inv (f : Machine.Frame) s, p.Extends f.routine.pool →
        Machine.step inv i f s = ((.ok (.goto i.next), { f with stack := w :: f.stack }), s)

namespace Lowering

/-- Lowering adds one instruction, which pushes a value unless a constant is lost. -/
def Loads (x : Lower Unit) (w : Value) : Prop :=
  ∀ (env : Env) (σ : State), σ.pool.Coherent → ∃ item p,
    x env σ = .ok ((), { σ with code := σ.code.push item, pool := p }) ∧
      ((∀ τ, x env { σ with pool := σ.pool.cleared } = .ok ((), τ) → τ.pool.overflowed = false) →
        item.Pushes p w)

namespace Loads

variable {w : Value} {m : PoolM UInt16} {f : UInt16 → Lower Unit}

lemma pushes_of_emits {x : Lower Unit} {e : Emission} {item : Item} {p : Pool} {y : Machine.Op Unit}
    (hx : Single x e) (hemit : e.Emits item) (he : e.Performs y)
    (hy : ∀ f s, p.Extends f.routine.pool →
    y f s = ((.ok (), { f with stack := w :: f.stack }), s)) : item.Pushes p w := by
  intro c offset rest
  obtain ⟨i, hdec, hlen⟩ := Code.proper_of_emits (c := c) hx.fits hemit (absurd hx.labels) c offset
  have hrest := Insn.decode_take_append hdec rest
  rw [hlen, List.take_length] at hrest
  refine ⟨i, hrest, hlen, fun inv f s hp => ?_⟩
  obtain ⟨a, ha, hplain, hperform⟩ :=
    he (fun _ => none) i (Code.yields_of_emits hx.labels hx.fits hemit hdec _)
  obtain ⟨-, hend, hbranch⟩ := Action.isPlain_iff.1 hplain
  exact Machine.step_of_perform ha hend hbranch (by rw [hperform, hy f s hp])

lemma direct {x : Lower Unit} (h : Direct x w) : Loads x w := by
  obtain ⟨e, hx, he, halways⟩ := h
  intro env σ _
  obtain ⟨item, hemit, hrun⟩ := halways env σ
  exact ⟨item, σ.pool, hrun, fun _ => pushes_of_emits hx hemit he fun _ _ _ => rfl⟩

/-- A constant that goes through the pool. -/
lemma pooled (hm : Pool.Puts m fun q i => q.Denotes i w) (hb : Pool.Blind m) (hf : Finds f) :
    Loads (pooling m >>= f) w := by
  intro env σ hp
  obtain ⟨e, hx, he, halways⟩ := hf (m σ.pool).1
  obtain ⟨item, hemit, hrun⟩ := halways env { σ with pool := (m σ.pool).2 }
  refine ⟨item, (m σ.pool).2, hrun, fun hfits => ?_⟩
  obtain ⟨b, hclear⟩ := hb σ.pool false
  -- The same constant has the same index in a pool that has not overflowed, and there it is found.
  have hrun : (pooling m >>= f) env { σ with pool := σ.pool.cleared } =
      f (m σ.pool).1 env { σ with pool := { (m σ.pool).2 with overflowed := b } } := by
    show f (m σ.pool.cleared).1 env { σ with pool := (m σ.pool.cleared).2 } = _
    rw [show m σ.pool.cleared = _ from hclear]
  have ho : b = false := by
    obtain ⟨_, -, hend⟩ := halways env { σ with pool := { (m σ.pool).2 with overflowed := b } }
    exact hfits _ (hrun.trans hend)
  have hput := hm.holds (p := σ.pool.cleared) ⟨hp.lists, hp.index, hp.count⟩
  rw [show m σ.pool.cleared = _ from hclear] at hput
  have hden := Pool.Extends.denotes (p := { (m σ.pool).2 with overflowed := b }) (q := (m σ.pool).2)
    ⟨id, fun _ => ho⟩ (hput ho)
  refine pushes_of_emits hx hemit he.performs fun g s hg => ?_
  rw [Machine.Op.bind_apply, Machine.constant_apply (hg.denotes hden)]
  rfl

lemma int (v : Int32) : Loads (pushConst (.int v)) (.int v) := by
  have hval : v.toInt64.toInt = v.toInt := Int32.toInt_toInt64 v
  have hrange : ¬ (v.toInt64.toInt < -2147483648 ∨ 2147483647 < v.toInt64.toInt) := by
    have := v.toInt_lt
    have := v.le_toInt
    omega
  have heq : pushConst (.int v) = pushInt v.toInt := hval ▸ if_neg hrange
  have hcases := pushInt_cases v.toInt
  rw [← heq, Int32.ofInt_toInt] at hcases
  rcases hcases with h | h
  · exact direct h
  · exact h ▸ pooled (Pool.puts_add _) (Pool.blind_add _) finds_loadConst

lemma long (v : Int64) : Loads (pushConst (.long v)) (.long v) := by
  show Loads (pushLong v) _
  rcases pushLong_cases v with h | h
  · exact direct h
  · exact h ▸ pooled (Pool.puts_add _) (Pool.blind_add _) finds_ldcTwo

lemma pushFloat (bits : UInt32) : Loads (pushFloat bits) (.float bits) := by
  unfold Lowering.pushFloat
  split_ifs with h0 h1 h2
  · exact h0 ▸ direct (direct_emit rfl rfl fun _ _ => rfl)
  · exact h1 ▸ direct (direct_emit rfl rfl fun _ _ => rfl)
  · exact h2 ▸ direct (direct_emit rfl rfl fun _ _ => rfl)
  · exact pooled (Pool.puts_add _) (Pool.blind_add _) finds_loadConst

lemma double (bits : UInt64) : Loads (pushConst (.double bits)) (.double bits) := by
  show Loads (pushDouble bits) _
  unfold pushDouble
  split_ifs with h0 h1
  · exact h0 ▸ direct (direct_emit rfl rfl fun _ _ => rfl)
  · exact h1 ▸ direct (direct_emit rfl rfl fun _ _ => rfl)
  · exact pooled (Pool.puts_add _) (Pool.blind_add _) finds_ldcTwo

lemma str (s : String) : Loads (pushConst (.str s)) (.str s) :=
  pooled (Pool.puts_str s) (.bind (Pool.blind_add _) fun _ => Pool.blind_add _) finds_loadConst

end Loads

end Lowering

/-- The constants of the types that the machine computes with, and their values. -/
inductive Constant.Denotes : Constant → Value → Prop
  | int (v : Int32) : Denotes (.int v) (.int v)
  | long (v : Int64) : Denotes (.long v) (.long v)
  | float (bits : UInt32) : Denotes (.float bits) (.float bits)
  | double (bits : UInt64) : Denotes (.double bits) (.double bits)
  | str (s : String) : Denotes (.str s) (.str s)

/-- Values that are no numbers. -/
def Machine.Value.IsNaN : Value → Prop
  | .float bits => Number.decode Number.single bits.toNat = .notANumber
  | .double bits => Number.decode Number.double bits.toNat = .notANumber
  | _ => False

namespace Lowering

/-- A constant is loaded as itself: whatever the pool holds, one instruction is added, and where
nothing is lost from the pool it is decoded and run to push the value, bit for bit unless that is no
number. -/
theorem pushConst_loads {c : Constant} {v : Value} (hc : c.Denotes v) (env : Env) (σ : State)
    (hp : σ.pool.Coherent)
    (hfits : ∀ τ, pushConst c env { σ with pool := σ.pool.cleared } = .ok ((), τ) →
      τ.pool.overflowed = false) :
    ∃ item p w, pushConst c env σ = .ok ((), { σ with code := σ.code.push item, pool := p }) ∧
      (w = v ∨ v.IsNaN ∧ w.IsNaN) ∧ item.Pushes p w := by
  have hload {w : Value} (h : Loads (pushConst c) w) (hw : w = v ∨ v.IsNaN ∧ w.IsNaN) :
      ∃ item p w, pushConst c env σ = .ok ((), { σ with code := σ.code.push item, pool := p }) ∧
        (w = v ∨ v.IsNaN ∧ w.IsNaN) ∧ item.Pushes p w := by
    obtain ⟨item, p, hrun, hpush⟩ := h env σ hp
    exact ⟨item, p, w, hrun, hw, hpush hfits⟩
  cases hc with
  | int v => exact hload (.int v) (.inl rfl)
  | long v => exact hload (.long v) (.inl rfl)
  | float bits =>
    refine hload (.pushFloat (Number.narrow (Number.widen bits))) ?_
    by_cases h : Number.decode Number.single bits.toNat = .notANumber
    · exact .inr ⟨h, Number.narrow_widen_nan h⟩
    · exact .inl (congrArg _ (Number.narrow_widen h))
  | double bits => exact hload (.double bits) (.inl rfl)
  | str s => exact hload (.str s) (.inl rfl)

/-- A pool of three hundred numbers, into which something did not fit. -/
def crowded : Pool where
  entries := (none :: (List.range 300).map fun n => some (.int (.ofNat n))).toArray
  index := ∅
  overflowed := true

/-- Negative zero, behind the indices that one byte holds. -/
theorem pushConst_loads_negativeZero :
    let env : Env :=
      ⟨{ decl := { ty := { name := "Zeros" } } }, { name := "zero" }, [], fun _ => pure ()⟩
    let σ := State.start { name := "zero" } crowded
    crowded.Coherent ∧
    (∀ τ, pushConst (.float 0x80000000) env { σ with pool := crowded.cleared } = .ok ((), τ) →
      τ.pool.overflowed = false) ∧
    ∃ item p,
      pushConst (.float 0x80000000) env σ =
        .ok ((), { σ with code := σ.code.push item, pool := p }) ∧
      item.Pushes p (.float 0x80000000) := by
  intro env σ
  have hp : crowded.Coherent := by
    refine ⟨⟨(List.range 300).map fun n => .int (.ofNat n), ?_⟩, by simp [crowded],
      by simp [crowded, Pool.count, Pool.limit]⟩
    rw [Pool.Lists, List.flatMap_map]
    exact congrArg (none :: ·) List.map_eq_flatMap
  have hnan : Number.decode Number.single (0x80000000 : UInt32).toNat ≠ .notANumber := by
    decide +kernel
  have hfits : ∀ τ, pushConst (.float 0x80000000) env { σ with pool := crowded.cleared } =
      .ok ((), τ) →
      τ.pool.overflowed = false := by
    intro τ h
    replace h : pushFloat (Number.narrow (Number.widen 0x80000000)) env
      { σ with pool := crowded.cleared } = _ := h
    rw [Number.narrow_widen hnan] at h
    obtain ⟨index, ρ, hρ, h⟩ := bind_eq_ok_iff (x := pooling (Pool.float 0x80000000)).1 h
    obtain ⟨rfl, rfl⟩ := pooling_eq_ok_iff.1 hρ
    obtain ⟨_, -, -, halways⟩ := finds_loadConst (Pool.float 0x80000000 crowded.cleared).1
    obtain ⟨item, -, hrun⟩ :=
      halways env { σ with pool := (Pool.float 0x80000000 crowded.cleared).2 }
    cases hrun.symm.trans h
    simp [Pool.float, Pool.add, Pool.cleared, Pool.count, Pool.limit, Entry.slots, Entry.isWide,
      crowded]
  obtain ⟨item, p, w, hrun, hw, hpush⟩ := pushConst_loads (.float 0x80000000) env σ hp hfits
  obtain rfl := hw.resolve_right fun h => hnan h.1
  exact ⟨hp, hfits, item, p, hrun, hpush⟩

end Lowering

end Classwright
