import Classwright.Lowering.Operand
import Classwright.Proofs.Integral.Semantics
import Classwright.Proofs.Machine.Stepping

/-!
Arithmetic of the machine on integers of a type.

The machine has integers in words of 32 or 64 bits (`Whole.toValue`). Its instructions compute what
the operators on integers do, and stay in the range of the type.
-/

namespace Classwright.Integral

open Lowering (mathAction numOf condOf)
open Machine

/-- A value as the machine has it. -/
def Whole.toValue (w : Whole) : Value :=
  if w.ty = .long then .long (.ofInt w.val) else .int (.ofInt w.val)

/-! ### Ranges -/

variable {p q : Prim} {a b n : Int}

lemma inRange_wrap (hp : p = .byte ∨ p = .short ∨ p = .char ∨ p = .int ∨ p = .long) (n : Int) :
    InRange p (wrap p n) := by
  rcases hp with rfl | rfl | rfl | rfl | rfl
  · exact ⟨Int.le_bmod (by decide), Int.bmod_lt (by decide)⟩
  · exact ⟨Int.le_bmod (by decide), Int.bmod_lt (by decide)⟩
  · exact ⟨Int.emod_nonneg _ (by decide), Int.emod_lt_of_pos _ (by decide)⟩
  · exact ⟨Int.le_bmod (by decide), Int.bmod_lt (by decide)⟩
  · exact ⟨Int.le_bmod (by decide), Int.bmod_lt (by decide)⟩

/-- An integer of a type stays as it is. -/
lemma wrap_eq_of_inRange (h : InRange p n) : wrap p n = n := by
  cases p <;> simp only [InRange, wrap, Int.bmod] at h ⊢ <;> omega

/-- What a type widens to has all its integers. -/
lemma InRange.widen (h : InRange p n) (hpq : p.widensTo q) (hq : isWhole q) : InRange q n := by
  cases p <;> cases q <;> first | exact h | (cases hpq; done) | (cases hq; done) | skip
  all_goals simp only [InRange] at h ⊢; omega

/-- A boolean is one of the numbers that it is run as. -/
lemma InRange.ofBoolean (h : InRange .boolean n) : InRange .int n := by
  obtain ⟨h0, h2⟩ := h
  constructor <;> omega

/-! ### Words -/

lemma int32_ofInt_bmod (n : Int) : Int32.ofInt (n.bmod (2 ^ 32)) = Int32.ofInt n := by
  apply Int32.toInt_inj.1
  simp only [Int32.toInt_ofInt, Int32.size]
  exact Int.bmod_bmod

lemma toInt_int32 (h : InRange .int n) : (Int32.ofInt n).toInt = n :=
  Int32.toInt_ofInt_of_le h.1 h.2

lemma toInt_int64 (h : InRange .long n) : (Int64.ofInt n).toInt = n :=
  Int64.toInt_ofInt_of_le h.1 h.2

lemma ofInt_bmod {w : Nat} (n : Int) : BitVec.ofInt w (n.bmod (2 ^ w)) = BitVec.ofInt w n := by
  apply BitVec.eq_of_toInt_eq
  rw [BitVec.toInt_ofInt, BitVec.toInt_ofInt, Int.bmod_bmod]

/-- The types in which the machine computes. -/
def IsWord (p : Prim) : Prop := p = .int ∨ p = .long

namespace IsWord

variable (hp : IsWord p)
include hp

lemma width_pos : 0 < width p := by rcases hp with rfl | rfl <;> decide

lemma inRange_iff : InRange p n ↔ -2 ^ (width p - 1) ≤ n ∧ n < 2 ^ (width p - 1) := by
  rcases hp with rfl | rfl <;> rfl

lemma wrap_eq : wrap p n = n.bmod (2 ^ width p) := by rcases hp with rfl | rfl <;> rfl

lemma ofInt_wrap : BitVec.ofInt (width p) (wrap p n) = BitVec.ofInt (width p) n := by
  rw [hp.wrap_eq, ofInt_bmod]

lemma toInt_ofInt (h : InRange p n) : (BitVec.ofInt (width p) n).toInt = n := by
  obtain ⟨hl, hu⟩ := hp.inRange_iff.1 h
  exact BitVec.toInt_ofInt_eq_self hp.width_pos hl hu

lemma inRange_toInt (x : BitVec (width p)) : InRange p x.toInt :=
  hp.inRange_iff.2 ⟨BitVec.le_toInt x, BitVec.toInt_lt⟩

lemma inRange_wrap (n : Int) : InRange p (wrap p n) :=
  Integral.inRange_wrap (by rcases hp with rfl | rfl <;> simp) n

end IsWord

/-! ### Operators -/

/-- An operator on words; shifts are apart. -/
def bitOp {w : Nat} : MathOp → BitVec w → BitVec w → BitVec w
  | .add, x, y => x + y
  | .sub, x, y => x - y
  | .mul, x, y => x * y
  | .div, x, y => x.sdiv y
  | .rem, x, y => x.srem y
  | .and, x, y => x &&& y
  | .or, x, y => x ||| y
  | _, x, y => x ^^^ y

lemma tmod_bounds (ha : -n ≤ a ∧ a < n) : -n ≤ a.tmod b ∧ a.tmod b < n := by
  have habs := Int.natAbs_tmod a b
  have hle : a.natAbs % b.natAbs ≤ a.natAbs := Nat.mod_le _ _
  rcases le_total 0 a with h | h
  · have := Int.tmod_nonneg b h
    omega
  · have := Int.tmod_nonneg b (Int.neg_nonneg_of_nonpos h)
    rw [Int.neg_tmod] at this
    omega

variable {op : MathOp} {r : Int}

/-- Operators on words compute those on integers. -/
lemma bitOp_ofInt (hp : IsWord p) (hop : op.isShift = false) (ha : InRange p a) (hb : InRange p b)
    (h : apply op p a b = .ok r) :
    InRange p r ∧ bitOp op (BitVec.ofInt (width p) a) (BitVec.ofInt (width p) b) =
    BitVec.ofInt (width p) r := by
  cases op with
  | add =>
    obtain rfl := Except.ok.inj h
    exact ⟨hp.inRange_wrap _, by rw [hp.ofInt_wrap, BitVec.ofInt_add, bitOp]⟩
  | sub =>
    obtain rfl := Except.ok.inj h
    refine ⟨hp.inRange_wrap _, ?_⟩
    rw [hp.ofInt_wrap, Int.sub_eq_add_neg, BitVec.ofInt_add, BitVec.ofInt_neg, bitOp,
      BitVec.sub_eq_add_neg]
  | mul =>
    obtain rfl := Except.ok.inj h
    exact ⟨hp.inRange_wrap _, by rw [hp.ofInt_wrap, BitVec.ofInt_mul, bitOp]⟩
  | div =>
    simp only [apply] at h
    split_ifs at h
    obtain rfl := Except.ok.inj h
    refine ⟨hp.inRange_wrap _, BitVec.eq_of_toInt_eq ?_⟩
    rw [hp.ofInt_wrap, bitOp, BitVec.toInt_sdiv, hp.toInt_ofInt ha, hp.toInt_ofInt hb,
      BitVec.toInt_ofInt]
  | rem =>
    simp only [apply] at h
    split_ifs at h
    obtain rfl := Except.ok.inj h
    have hr : InRange p (a.tmod b) := hp.inRange_iff.2 (tmod_bounds (hp.inRange_iff.1 ha))
    refine ⟨hr, BitVec.eq_of_toInt_eq ?_⟩
    rw [hp.toInt_ofInt hr, bitOp, BitVec.toInt_srem, hp.toInt_ofInt ha, hp.toInt_ofInt hb]
  | and | or | xor =>
    obtain rfl := Except.ok.inj h
    exact ⟨hp.inRange_toInt _, BitVec.ofInt_toInt.symm⟩
  | shl | shr | ushr => cases hop

/-- The operator of the machine. -/
def wholeOp : MathOp → WholeOp
  | .add => .add
  | .sub => .sub
  | .mul => .mul
  | .div => .div
  | .rem => .rem
  | .and => .and
  | .or => .or
  | _ => .xor

lemma ofAction_mathAction (op : MathOp) : WholeOp.ofAction false (mathAction op .int) = wholeOp op ∧
      WholeOp.ofAction true (mathAction op .long) = wholeOp op := by
  cases op <;> exact ⟨rfl, rfl⟩

lemma toBitVec_int (x y : Int32) :
    ((wholeOp op).int x y).toBitVec = bitOp op x.toBitVec y.toBitVec := by
  cases op <;> rfl

lemma toBitVec_long (x y : Int64) :
    ((wholeOp op).long x y).toBitVec = bitOp op x.toBitVec y.toBitVec := by
  cases op <;> rfl

/-- Only a division by zero fails. -/
lemma apply_cases (op : MathOp) (p : Prim) (a b : Int) :
    (wholeOp op).divides = true ∧ b = 0 ∧ apply op p a b = .error .arithmetic ∨
      ¬ ((wholeOp op).divides = true ∧ b = 0) ∧ ∃ r, apply op p a b = .ok r := by
  by_cases hb : b = 0
  · cases op <;> simp [wholeOp, WholeOp.divides, apply, hb]
  · right
    cases op <;> simp [hb, apply]

/-- An operator behind the check of its divisor. -/
lemma guarded_eq {z : Bool} {v : Value} (hz : z = decide (b = 0))
    (hv : ∀ r, apply op p a b = .ok r → v = Whole.toValue ⟨p, r⟩) (s : State) :
    (do
      if (wholeOp op).divides && z then divisionByZero
      return v : Exec Value) s =
      match apply op p a b with
      | .ok r => (.ok (Whole.toValue ⟨p, r⟩), s)
      | .error _ => divisionByZero s := by
  rcases apply_cases op p a b with ⟨hd, hb, happ⟩ | ⟨hnot, r, happ⟩
  · rw [happ, hd, hz, hb]
    rfl
  · rw [happ, hz, if_neg (by simpa using hnot), hv r happ]
    rfl

/-- The machine computes an operator or throws. -/
lemma arith_eq (hp : IsWord p) (hop : op.isShift = false) (ha : InRange p a) (hb : InRange p b)
    (s : State) :
    arith (mathAction op (numOf p.category)) (Whole.toValue ⟨p, a⟩)
        (Whole.toValue ⟨p, b⟩) s =
      match apply op p a b with
      | .ok r => (.ok (Whole.toValue ⟨p, r⟩), s)
      | .error _ => divisionByZero s := by
  obtain ⟨hint, hlong⟩ := ofAction_mathAction op
  rcases hp with rfl | rfl
  · have harith : arith (mathAction op .int) (.int (.ofInt a)) (.int (.ofInt b)) =
        (do
          if (wholeOp op).divides && Int32.ofInt b == 0 then divisionByZero
          return .int ((wholeOp op).int (.ofInt a) (.ofInt b))) := by rw [← hint]; rfl
    refine (congrFun harith s).trans (guarded_eq ?_ (fun r happ => congrArg Value.int ?_) s)
    · rw [Bool.eq_iff_iff, beq_iff_eq, decide_eq_true_iff, ← Int32.toInt_inj, toInt_int32 hb]
      rfl
    · exact Int32.toBitVec_inj.1
        ((toBitVec_int _ _).trans (bitOp_ofInt (.inl rfl) hop ha hb happ).2)
  · have harith : arith (mathAction op .long) (.long (.ofInt a)) (.long (.ofInt b)) =
        (do
          if (wholeOp op).divides && Int64.ofInt b == 0 then divisionByZero
          return .long ((wholeOp op).long (.ofInt a) (.ofInt b))) := by rw [← hlong]; rfl
    refine (congrFun harith s).trans (guarded_eq ?_ (fun r happ => congrArg Value.long ?_) s)
    · rw [Bool.eq_iff_iff, beq_iff_eq, decide_eq_true_iff, ← Int64.toInt_inj, toInt_int64 hb]
      rfl
    · exact Int64.toBitVec_inj.1
        ((toBitVec_long _ _).trans (bitOp_ofInt (.inr rfl) hop ha hb happ).2)

/-! ### Shifts -/

variable {d : Int}

/-- A shift of a word. -/
def bitShift {w : Nat} : MathOp → BitVec w → Nat → BitVec w
  | .shl, x, k => x <<< k
  | .shr, x, k => x.sshiftRight k
  | _, x, k => x >>> k

lemma ofInt_two_pow (w k : Nat) : BitVec.ofInt w (2 ^ k) = BitVec.twoPow w k := by
  apply BitVec.eq_of_toNat_eq
  rw [BitVec.toNat_ofInt, BitVec.toNat_twoPow]
  norm_cast

/-- Shifts of words compute those of integers. -/
lemma bitShift_ofInt (hp : IsWord p) (hop : op.isShift) (ha : InRange p a) (b : Int) :
    ∃ r, apply op p a b = .ok r ∧ InRange p r ∧
      bitShift op (BitVec.ofInt (width p) a) (b % width p).toNat = BitVec.ofInt (width p) r := by
  cases op with
  | shl =>
    refine ⟨_, rfl, hp.inRange_wrap _, ?_⟩
    rw [hp.ofInt_wrap, bitShift, BitVec.ofInt_mul, ofInt_two_pow, BitVec.shiftLeft_eq_mul_twoPow]
  | shr =>
    have hr : a / 2 ^ (b % width p).toNat =
        ((BitVec.ofInt (width p) a).sshiftRight (b % width p).toNat).toInt := by
      rw [BitVec.toInt_sshiftRight, hp.toInt_ofInt ha, Int.shiftRight_eq_div_pow]
      norm_cast
    refine ⟨_, rfl, hr ▸ hp.inRange_toInt _, ?_⟩
    rw [hr, BitVec.ofInt_toInt, bitShift]
  | ushr =>
    refine ⟨_, rfl, hp.inRange_wrap _, BitVec.eq_of_toNat_eq ?_⟩
    have hpos : (0 : Int) < 2 ^ width p := by positivity
    obtain ⟨m, hm⟩ := Int.eq_ofNat_of_zero_le (Int.emod_nonneg a hpos.ne')
    have hlt : m < 2 ^ width p := by
      have := Int.emod_lt_of_pos a hpos
      rw [hm] at this
      exact_mod_cast this
    have hle := (Nat.div_le_self m (2 ^ (b % width p).toNat)).trans_lt hlt
    rw [hp.ofInt_wrap, hm]
    show (BitVec.ofInt (width p) a >>> (b % width p).toNat).toNat = _
    rw [BitVec.toNat_ushiftRight, BitVec.toNat_ofInt, BitVec.toNat_ofInt, Nat.shiftRight_eq_div_pow]
    push_cast
    rw [hm]
    norm_cast
    exact (Nat.mod_eq_of_lt hle).symm
  | _ => cases hop

/-- A distance below the width is taken as it is. -/
lemma smod_of_lt {w m : Nat} {x : BitVec w} (hm : m < 2 ^ (w - 1)) (hx : x.toNat < m) :
    x.smod (BitVec.ofNat w m) = x := by
  have hw : 2 ^ (w - 1) ≤ 2 ^ w := Nat.pow_le_pow_right (by decide) (Nat.sub_le _ _)
  have hdouble : 2 * 2 ^ (w - 1) ≤ 2 ^ w := by
    cases w with
    | zero => simp at hm; omega
    | succ w => rw [Nat.add_sub_cancel, Nat.pow_succ']
  have hm' : (BitVec.ofNat w m).toInt = m := by
    rw [BitVec.toInt_eq_toNat_of_lt] <;> rw [BitVec.toNat_ofNat, Nat.mod_eq_of_lt] <;> omega
  have hx' : x.toInt = x.toNat := BitVec.toInt_eq_toNat_of_lt (by omega)
  apply BitVec.eq_of_toInt_eq
  rw [BitVec.toInt_smod, hm', hx', Int.fmod_eq_emod_of_nonneg _ (by omega)]
  exact Int.emod_eq_of_lt (by omega) (by omega)

/-- The shift of the machine. -/
def shiftOp : MathOp → BitOp
  | .shl => .shl
  | .shr => .shr
  | _ => .ushr

lemma toNat_and_int (d : Int) : (BitVec.ofInt 32 d &&& 31#32).toNat = (d % 32).toNat := by
  rw [BitVec.toNat_and, BitVec.toNat_ofInt, BitVec.toNat_ofNat]
  show _ &&& (2 ^ 5 - 1) = _
  rw [Nat.and_two_pow_sub_one_eq_mod]
  omega

lemma shift_int (hop : op.isShift) (a d : Int) : (match shiftOp op with
      | .shl => Int32.ofInt a <<< (Int32.ofInt d &&& 31)
      | .shr => Int32.ofInt a >>> (Int32.ofInt d &&& 31)
      | _ => ((Int32.ofInt a).toUInt32 >>> (Int32.ofInt d &&& 31).toUInt32).toInt32).toBitVec =
    bitShift op (BitVec.ofInt 32 a) (d % 32).toNat := by
  have hlt : (BitVec.ofInt 32 d &&& 31#32).toNat < 32 := by
    rw [toNat_and_int]
    omega
  rw [← toNat_and_int]
  cases op with
  | shl =>
    show BitVec.ofInt 32 a <<< (BitVec.ofInt 32 d &&& 31#32).smod 32#32 = _
    rw [smod_of_lt (by decide) hlt]
    rfl
  | shr =>
    show (BitVec.ofInt 32 a).sshiftRight' ((BitVec.ofInt 32 d &&& 31#32).smod 32#32) = _
    rw [smod_of_lt (by decide) hlt]
    rfl
  | ushr =>
    show BitVec.ofInt 32 a >>> ((BitVec.ofInt 32 d &&& 31#32) % 32#32) = _
    rw [BitVec.umod_eq_of_lt hlt]
    rfl
  | _ => cases hop

lemma toNat_and_long (d : Int) : (BitVec.ofInt 64 d &&& 63#64).toNat = (d % 64).toNat := by
  rw [BitVec.toNat_and, BitVec.toNat_ofInt, BitVec.toNat_ofNat]
  show _ &&& (2 ^ 6 - 1) = _
  rw [Nat.and_two_pow_sub_one_eq_mod]
  omega

lemma shift_long (hop : op.isShift) (a d : Int) : (match shiftOp op with
      | .shl => Int64.ofInt a <<< (Int64.ofInt d &&& 63)
      | .shr => Int64.ofInt a >>> (Int64.ofInt d &&& 63)
      | _ => ((Int64.ofInt a).toUInt64 >>> (Int64.ofInt d &&& 63).toUInt64).toInt64).toBitVec =
    bitShift op (BitVec.ofInt 64 a) (d % 64).toNat := by
  have hlt : (BitVec.ofInt 64 d &&& 63#64).toNat < 64 := by
    rw [toNat_and_long]
    omega
  rw [← toNat_and_long]
  cases op with
  | shl =>
    show BitVec.ofInt 64 a <<< (BitVec.ofInt 64 d &&& 63#64).smod 64#64 = _
    rw [smod_of_lt (by decide) hlt]
    rfl
  | shr =>
    show (BitVec.ofInt 64 a).sshiftRight' ((BitVec.ofInt 64 d &&& 63#64).smod 64#64) = _
    rw [smod_of_lt (by decide) hlt]
    rfl
  | ushr =>
    show BitVec.ofInt 64 a >>> ((BitVec.ofInt 64 d &&& 63#64) % 64#64) = _
    rw [BitVec.umod_eq_of_lt hlt]
    rfl
  | _ => cases hop

lemma int64_of_int32 (hd : InRange .int d) : (Int32.ofInt d).toInt64 = Int64.ofInt d := by
  apply Int64.toInt_inj.1
  rw [Int32.toInt_toInt64, toInt_int32 hd, toInt_int64]
  exact hd.widen rfl rfl

/-- The machine shifts by the low bits of a distance. -/
lemma shift_eq (hp : IsWord p) (hop : op.isShift) (ha : InRange p a) (hd : InRange .int d)
    (s : State) : ∃ r, apply op p a d = .ok r ∧ InRange p r ∧
      shift (shiftOp op) (p == .long) (Whole.toValue ⟨p, a⟩) (.int (.ofInt d)) s =
        (.ok (Whole.toValue ⟨p, r⟩), s) := by
  obtain ⟨r, happ, hr, hbits⟩ := bitShift_ofInt hp hop ha d
  refine ⟨r, happ, hr, ?_⟩
  rcases hp with rfl | rfl
  · have hres := (shift_int hop a d).trans (hbits.trans (Int32.toBitVec_ofInt r).symm)
    exact congrArg (fun v => (Except.ok (Value.int v), s)) (Int32.toBitVec_inj.1 hres)
  · have hres := (shift_long hop a d).trans (hbits.trans (Int64.toBitVec_ofInt r).symm)
    rw [← int64_of_int32 hd] at hres
    exact congrArg (fun v => (Except.ok (Value.long v), s)) (Int64.toBitVec_inj.1 hres)

lemma negate_eq (hp : IsWord p) (s : State) :
    negate (numOf p.category) (Whole.toValue ⟨p, a⟩) s =
      (.ok (Whole.toValue ⟨p, wrap p (-a)⟩), s) := by
  rcases hp with rfl | rfl
  · have h : -Int32.ofInt a = Int32.ofInt (wrap .int (-a)) := by
      rw [wrap, int32_ofInt_bmod, Int32.ofInt_neg]
    exact congrArg (fun v => (Except.ok (Value.int v), s)) h
  · have h : -Int64.ofInt a = Int64.ofInt (wrap .long (-a)) := by
      apply Int64.toInt_inj.1
      rw [Int64.toInt_neg, wrap, Int64.toInt_ofInt, Int64.toInt_ofInt]
      simp [Int64.size]
    exact congrArg (fun v => (Except.ok (Value.long v), s)) h

/-! ### Conversions -/

lemma convert_i2l (hn : InRange .int n) (s : State) :
    convert .i2l (.int (.ofInt n)) s = (.ok (.long (.ofInt n)), s) :=
  congrArg (fun v => (Except.ok (Value.long v), s)) (int64_of_int32 hn)

lemma convert_l2i (hn : InRange .long n) (s : State) :
    convert .l2i (.long (.ofInt n)) s = (.ok (.int (.ofInt n)), s) := by
  have h : (Int64.ofInt n).toInt32 = Int32.ofInt n := by
    apply Int32.toInt_inj.1
    rw [Int64.toInt_toInt32, toInt_int64 hn, Int32.toInt_ofInt]
  exact congrArg (fun v => (Except.ok (Value.int v), s)) h

lemma int32_ofInt_of_toInt {x : Int32} (h : x.toInt = n) : x = Int32.ofInt n := by
  rw [← h, Int32.ofInt_toInt]

lemma convert_i2b (n : Int) (s : State) :
    convert .i2b (.int (.ofInt n)) s = (.ok (.int (.ofInt (wrap .byte n))), s) := by
  have h : (Int32.ofInt n).toInt8.toInt32 = Int32.ofInt (wrap .byte n) := by
    apply int32_ofInt_of_toInt
    rw [Int8.toInt_toInt32, Int32.toInt_toInt8, Int32.toInt_ofInt]
    exact Int.bmod_bmod_of_dvd (by decide)
  exact congrArg (fun v => (Except.ok (Value.int v), s)) h

lemma convert_i2s (n : Int) (s : State) :
    convert .i2s (.int (.ofInt n)) s = (.ok (.int (.ofInt (wrap .short n))), s) := by
  have h : (Int32.ofInt n).toInt16.toInt32 = Int32.ofInt (wrap .short n) := by
    apply int32_ofInt_of_toInt
    rw [Int16.toInt_toInt32, Int32.toInt_toInt16, Int32.toInt_ofInt]
    exact Int.bmod_bmod_of_dvd (by decide)
  exact congrArg (fun v => (Except.ok (Value.int v), s)) h

lemma convert_i2c (n : Int) (s : State) :
    convert .i2c (.int (.ofInt n)) s = (.ok (.int (.ofInt (wrap .char n))), s) := by
  have h : Int32.ofNat (Int32.ofInt n).toUInt32.toUInt16.toNat = Int32.ofInt (wrap .char n) := by
    rw [← Int32.ofInt_eq_ofNat, UInt32.toNat_toUInt16]
    show Int32.ofInt ((BitVec.ofInt 32 n).toNat % 2 ^ 16 : Nat) = _
    rw [BitVec.toNat_ofInt, wrap]
    congr 1
    omega
  exact congrArg (fun v => (Except.ok (Value.int v), s)) h

/-! ### Comparison -/

lemma holds_condOf (op : CompareOp) (a b : Int) : (condOf op).holds a b = holds op a b := by
  cases op <;> simp [condOf, Cond.holds, holds, bne, beq_eq_decide]

lemma holds_negate (op : CompareOp) (a b : Int) : holds op.negate a b = !holds op a b := by
  rw [Bool.eq_iff_iff]
  cases op <;> simp [holds, CompareOp.negate]

/-- A comparison that is asked for or, if it is not wanted, its opposite. -/
lemma holds_wanted (cmp : CompareOp) (want : Bool) (x y : Int) :
    (condOf (if want then cmp else cmp.negate)).holds x y = (holds cmp x y == want) := by
  cases want with
  | true => simp [holds_condOf]
  | false => simp [holds_condOf, holds_negate]

/-- The order of two values compares with zero as they compare. -/
lemma holds_order (c : Cond) (a b : Int) :
    c.holds (if a < b then -1 else if b < a then 1 else 0) 0 = c.holds a b := by
  cases c <;> simp only [Cond.holds] <;> split_ifs <;> grind

end Classwright.Integral
