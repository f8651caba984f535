import Classwright.Bytes
import Mathlib.Tactic

/-!
Numbers as bytes.

A number is read back from the bytes it was written to. Signed numbers are written modulo the range
of their bytes, so that those within the range are read back as they are.
-/

namespace Classwright

namespace Bytes

lemma u16_ofU16 (v : UInt16) : u16 (v >>> 8).toUInt8 v.toUInt8 = v := by
  have hv : v.toNat < 65536 := v.toNat_lt
  have hlow : v.toNat % 2 ^ 8 < 2 ^ 8 := Nat.mod_lt _ (by decide)
  have hor := Nat.shiftLeft_add_eq_or_of_lt hlow (v.toNat / 2 ^ 8 % 2 ^ 8)
  apply UInt16.toNat_inj.1
  simp only [u16, UInt16.toNat_or, UInt16.toNat_shiftLeft, UInt8.toNat_toUInt16,
    UInt16.toNat_toUInt8, UInt16.toNat_shiftRight, Nat.shiftRight_eq_div_pow, Nat.shiftLeft_eq]
  rw [show UInt16.toNat 8 % 16 = 8 from rfl, Nat.mod_eq_of_lt (by omega), ← Nat.shiftLeft_eq, ← hor,
    Nat.shiftLeft_eq]
  omega

/-- A number is made of its halves. -/
lemma or_halves (v : UInt32) : (v >>> 16).toUInt16.toUInt32 <<< 16 ||| v.toUInt16.toUInt32 = v := by
  have hv : v.toNat < 2 ^ 32 := v.toNat_lt
  have hlow : v.toNat % 2 ^ 16 < 2 ^ 16 := Nat.mod_lt _ (by decide)
  have hor := Nat.shiftLeft_add_eq_or_of_lt hlow (v.toNat / 2 ^ 16 % 2 ^ 16)
  apply UInt32.toNat_inj.1
  simp only [UInt32.toNat_or, UInt32.toNat_shiftLeft, UInt16.toNat_toUInt32, UInt32.toNat_toUInt16,
    UInt32.toNat_shiftRight, Nat.shiftRight_eq_div_pow, Nat.shiftLeft_eq]
  rw [show UInt32.toNat 16 % 32 = 16 from rfl, Nat.mod_eq_of_lt (by omega), ← Nat.shiftLeft_eq,
    ← hor, Nat.shiftLeft_eq]
  omega

lemma u32_ofU32 (v : UInt32) :
    u32 (v >>> 24).toUInt8 (v >>> 16).toUInt8 (v >>> 8).toUInt8 v.toUInt8 = v := by
  -- The bytes are those of the two halves.
  have hfirst : (v >>> 24).toUInt8 = ((v >>> 16).toUInt16 >>> 8).toUInt8 := by
    apply UInt8.toNat_inj.1
    have := v.toNat_lt
    simp [Nat.shiftRight_eq_div_pow]
    omega
  have hsecond : (v >>> 16).toUInt8 = (v >>> 16).toUInt16.toUInt8 := by
    apply UInt8.toNat_inj.1
    simp [Nat.shiftRight_eq_div_pow]
  have hthird : (v >>> 8).toUInt8 = (v.toUInt16 >>> 8).toUInt8 := by
    apply UInt8.toNat_inj.1
    simp [Nat.shiftRight_eq_div_pow]
    omega
  have hlast : v.toUInt8 = v.toUInt16.toUInt8 := by
    apply UInt8.toNat_inj.1
    simp
  rw [u32, hfirst, hsecond, hthird, hlast, u16_ofU16, u16_ofU16, or_halves]

/-- A number of eight bytes is made of two of four. -/
lemma or_words (v : UInt64) : (v >>> 32).toUInt32.toUInt64 <<< 32 ||| v.toUInt32.toUInt64 = v := by
  have hv : v.toNat < 2 ^ 64 := v.toNat_lt
  have hlow : v.toNat % 2 ^ 32 < 2 ^ 32 := Nat.mod_lt _ (by decide)
  have hor := Nat.shiftLeft_add_eq_or_of_lt hlow (v.toNat / 2 ^ 32 % 2 ^ 32)
  apply UInt64.toNat_inj.1
  simp only [UInt64.toNat_or, UInt64.toNat_shiftLeft, UInt32.toNat_toUInt64, UInt64.toNat_toUInt32,
    UInt64.toNat_shiftRight, Nat.shiftRight_eq_div_pow, Nat.shiftLeft_eq]
  rw [show UInt64.toNat 32 % 64 = 32 from rfl, Nat.mod_eq_of_lt (by omega), ← Nat.shiftLeft_eq,
    ← hor, Nat.shiftLeft_eq]
  omega

/-! ### Bytes that were read -/

lemma toNat_u16 (a b : UInt8) : (u16 a b).toNat = a.toNat * 256 + b.toNat := by
  have ha := a.toNat_lt
  have hb : b.toNat < 2 ^ 8 := b.toNat_lt
  have hor := Nat.shiftLeft_add_eq_or_of_lt hb a.toNat
  simp only [u16, UInt16.toNat_or, UInt16.toNat_shiftLeft, UInt8.toNat_toUInt16]
  rw [show UInt16.toNat 8 % 16 = 8 from rfl, Nat.mod_eq_of_lt (by rw [Nat.shiftLeft_eq]; omega),
    ← hor, Nat.shiftLeft_eq]

lemma toNat_u32 (a b c d : UInt8) :
    (u32 a b c d).toNat = (u16 a b).toNat * 65536 + (u16 c d).toNat := by
  have hhigh := (u16 a b).toNat_lt
  have hlow : (u16 c d).toNat < 2 ^ 16 := (u16 c d).toNat_lt
  have hor := Nat.shiftLeft_add_eq_or_of_lt hlow (u16 a b).toNat
  simp only [u32, UInt32.toNat_or, UInt32.toNat_shiftLeft, UInt16.toNat_toUInt32]
  rw [show UInt32.toNat 16 % 32 = 16 from rfl, Nat.mod_eq_of_lt (by rw [Nat.shiftLeft_eq]; omega),
    ← hor, Nat.shiftLeft_eq]

lemma ofU16_u16 (a b : UInt8) : ofU16 (u16 a b) = [a, b] := by
  have ha := a.toNat_lt
  have hb := b.toNat_lt
  have hhigh : (u16 a b >>> 8).toUInt8 = a := by
    apply UInt8.toNat_inj.1
    simp [toNat_u16, Nat.shiftRight_eq_div_pow]
    omega
  have hlow : (u16 a b).toUInt8 = b := by
    apply UInt8.toNat_inj.1
    simp [toNat_u16]
  rw [ofU16, hhigh, hlow]

lemma ofU16_inj {v w : UInt16} (h : ofU16 v = ofU16 w) : v = w := by
  obtain ⟨hhigh, hlow⟩ := List.cons.inj h
  rw [← u16_ofU16 v, hhigh, (List.cons.inj hlow).1, u16_ofU16]

lemma ofU32_u32 (a b c d : UInt8) : ofU32 (u32 a b c d) = [a, b, c, d] := by
  have ha := a.toNat_lt
  have hb := b.toNat_lt
  have hc := c.toNat_lt
  have hd := d.toNat_lt
  simp only [ofU32, List.cons.injEq, and_true]
  refine ⟨?_, ?_, ?_, ?_⟩ <;> apply UInt8.toNat_inj.1 <;>
    simp [toNat_u32, toNat_u16, Nat.shiftRight_eq_div_pow] <;> omega

lemma ofU64_words (high low : UInt32) :
    ofU64 (high.toUInt64 <<< 32 ||| low.toUInt64) = ofU32 high ++ ofU32 low := by
  have hhigh := high.toNat_lt
  have hlow : low.toNat < 2 ^ 32 := low.toNat_lt
  have hor := Nat.shiftLeft_add_eq_or_of_lt hlow high.toNat
  have hv : (high.toUInt64 <<< 32 ||| low.toUInt64).toNat = high.toNat * 2 ^ 32 + low.toNat := by
    simp only [UInt64.toNat_or, UInt64.toNat_shiftLeft, UInt32.toNat_toUInt64]
    rw [show UInt64.toNat 32 % 64 = 32 from rfl, Nat.mod_eq_of_lt (by rw [Nat.shiftLeft_eq]; omega),
      ← hor, Nat.shiftLeft_eq]
  have hfirst : ((high.toUInt64 <<< 32 ||| low.toUInt64) >>> 32).toUInt32 = high := by
    apply UInt32.toNat_inj.1
    rw [UInt64.toNat_toUInt32, UInt64.toNat_shiftRight, hv, Nat.shiftRight_eq_div_pow]
    rw [show UInt64.toNat 32 % 64 = 32 from rfl]
    omega
  have hsecond : (high.toUInt64 <<< 32 ||| low.toUInt64).toUInt32 = low := by
    apply UInt32.toNat_inj.1
    rw [UInt64.toNat_toUInt32, hv]
    omega
  rw [ofU64, hfirst, hsecond]

end Bytes

/-! ### Signed numbers -/

lemma UInt8.toInt8_ofInt (i : Int) : (UInt8.ofInt i).toInt8 = Int8.ofInt i := by
  apply Int8.toBitVec_inj.1
  rw [UInt8.toBitVec_toInt8, Int8.toBitVec_ofInt]
  apply BitVec.eq_of_toNat_eq
  rw [BitVec.toNat_ofInt]
  have h : (i % 2 ^ 8).toNat < 2 ^ 8 := by omega
  exact Nat.mod_eq_of_lt h

lemma UInt16.toInt16_ofInt (i : Int) : (UInt16.ofInt i).toInt16 = Int16.ofInt i := by
  apply Int16.toBitVec_inj.1
  rw [UInt16.toBitVec_toInt16, Int16.toBitVec_ofInt]
  apply BitVec.eq_of_toNat_eq
  rw [BitVec.toNat_ofInt]
  have h : (i % 2 ^ 16).toNat < 2 ^ 16 := by omega
  exact Nat.mod_eq_of_lt h

lemma UInt32.toInt32_ofInt (i : Int) : (UInt32.ofInt i).toInt32 = Int32.ofInt i := by
  apply Int32.toBitVec_inj.1
  rw [UInt32.toBitVec_toInt32, Int32.toBitVec_ofInt]
  apply BitVec.eq_of_toNat_eq
  rw [BitVec.toNat_ofInt]
  have h : (i % 2 ^ 32).toNat < 2 ^ 32 := by omega
  exact Nat.mod_eq_of_lt h

namespace Bytes

/-- A number is read from its four bytes, modulo their range. -/
lemma takeInt32?_ofInt32 (i : Int) (rest : Bytes) :
    takeInt32? (ofInt32 i ++ rest) = some ((Int32.ofInt i).toInt, rest) := by
  simp only [ofInt32, ofU32, List.cons_append, List.nil_append, takeInt32?, int32, u32_ofU32,
    UInt32.toInt32_ofInt]

/-- A number that four bytes can hold. -/
lemma takeInt32?_ofInt32_of_mem {i : Int} (hi : -2 ^ 31 ≤ i ∧ i < 2 ^ 31) (rest : Bytes) :
    takeInt32? (ofInt32 i ++ rest) = some (i, rest) := by
  rw [takeInt32?_ofInt32, Int32.toInt_ofInt_of_le hi.1 hi.2]

lemma takeInt32s?_ofInt32 (is : List Int) (rest : Bytes) :
    takeInt32s? is.length (is.flatMap ofInt32 ++ rest) =
    some (is.map fun i => (Int32.ofInt i).toInt, rest) := by
  induction is with
  | nil => rfl
  | cons i is ih =>
    simp [takeInt32s?, takeInt32?_ofInt32, ih]

end Bytes

end Classwright
