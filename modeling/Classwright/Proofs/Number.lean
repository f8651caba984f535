import Classwright.Number.Binary
import Mathlib.Tactic.Positivity
import Mathlib.Tactic.Ring

/-!
Numbers of two widths.

A pattern is a sign, an exponent field and a fraction, `exists_fields`. Below the largest exponent
they are read as a mantissa at a scale, and whatever has that value is rounded to the pattern,
`encode_fields`. Main statement: `narrow_widen`, a number of thirty-two bits survives sixty-four.
-/

namespace Classwright.Number

variable {f : Format} {m n t r : Nat} {e : Int} {s : Bool}

/-! ### Reading -/

/-- The pattern of an exponent field and a fraction. -/
def pattern (f : Format) (s : Bool) (t r : Nat) : Nat := withSign f s (t * 2 ^ f.fraction + r)

/-- The mantissa of a finite number. -/
def mantissa (f : Format) (t r : Nat) : Nat := if t = 0 then r else r + 2 ^ f.fraction

/-- The scale of a finite number. -/
def scale (f : Format) (t : Nat) : Int := f.minScale + (t - 1 : Nat)

lemma signBit_eq : f.signBit = 2 ^ f.exponent * 2 ^ f.fraction := by
  simp [Format.signBit, pow_add, mul_comm]

lemma fields_lt (ht : t < n) (hr : r < 2 ^ f.fraction) :
    t * 2 ^ f.fraction + r < n * 2 ^ f.fraction := by
  calc t * 2 ^ f.fraction + r < (t + 1) * 2 ^ f.fraction := by rw [Nat.succ_mul]; omega
    _ ≤ n * 2 ^ f.fraction := Nat.mul_le_mul_right _ ht

lemma pattern_lt (ht : t < 2 ^ f.exponent) (hr : r < 2 ^ f.fraction) :
    pattern f s t r < 2 * f.signBit := by
  have := fields_lt ht hr
  rw [← signBit_eq] at this
  unfold pattern withSign
  split_ifs <;> omega

lemma exists_fields (h : n < 2 * f.signBit) :
    ∃ s t r, t < 2 ^ f.exponent ∧ r < 2 ^ f.fraction ∧ n = pattern f s t r := by
  have hfields {k : Nat} (hk : k < f.signBit) : k / 2 ^ f.fraction < 2 ^ f.exponent :=
    Nat.div_lt_of_lt_mul (by rwa [mul_comm, ← signBit_eq])
  have hr (k : Nat) : k % 2 ^ f.fraction < 2 ^ f.fraction := Nat.mod_lt _ (by positivity)
  rcases Nat.lt_or_ge n f.signBit with hlt | hge
  · exact ⟨false, _, _, hfields hlt, hr n, (Nat.div_add_mod' n _).symm⟩
  · refine ⟨true, _, _, hfields (k := n - f.signBit) (by omega), hr (n - f.signBit), ?_⟩
    rw [pattern, Nat.div_add_mod']
    exact (Nat.add_sub_of_le hge).symm

lemma decode_pattern (ht : t < 2 ^ f.exponent) (hr : r < 2 ^ f.fraction) :
    decode f (pattern f s t r) =
    if t = 2 ^ f.exponent - 1 then if r = 0 then .infinite s else .notANumber
    else .finite s (mantissa f t r) (scale f t) := by
  have hlt := signBit_eq ▸ fields_lt ht hr
  obtain ⟨k, hk⟩ : ∃ k, pattern f s t r = 2 ^ f.fraction * (2 ^ f.exponent * k + t) + r := by
    cases s
    · exact ⟨0, by simp [pattern, withSign, mul_comm]⟩
    · exact ⟨1, by simp only [pattern, withSign, if_true, signBit_eq]; ring⟩
  have hsign : decide (pattern f s t r / f.signBit % 2 = 1) = s := by
    cases s
    · simp [pattern, withSign, Nat.div_eq_of_lt hlt]
    · simp [pattern, withSign, Nat.add_div_left _ (Nat.zero_lt_of_lt hlt), Nat.div_eq_of_lt hlt]
  have hdiv : pattern f s t r / 2 ^ f.fraction % 2 ^ f.exponent = t := by
    rw [hk, Nat.mul_add_div (by positivity), Nat.div_eq_of_lt hr, Nat.add_zero, Nat.mul_add_mod,
      Nat.mod_eq_of_lt ht]
  have hrest : pattern f s t r % 2 ^ f.fraction = r := by
    rw [hk, Nat.mul_add_mod, Nat.mod_eq_of_lt hr]
  simp only [decode, Nat.pow_eq, hdiv, hrest, hsign]
  rcases t with _ | t
  · simp [mantissa, scale]
  · simp [mantissa, scale, add_sub_assoc]

lemma decode_finite (ht : t < 2 ^ f.exponent - 1) (hr : r < 2 ^ f.fraction) :
    decode f (pattern f s t r) = .finite s (mantissa f t r) (scale f t) := by
  rw [decode_pattern (by omega) hr, if_neg ht.ne]

/-! ### Rounding -/

lemma log2_mul_two_pow (hm : m ≠ 0) (i : Nat) : (m * 2 ^ i).log2 = m.log2 + i := by
  refine (Nat.log2_eq_iff (by positivity)).2 ⟨?_, ?_⟩
  · rw [pow_add]
    exact Nat.mul_le_mul_right _ (Nat.log2_self_le hm)
  · rw [add_right_comm, pow_add]
    exact Nat.mul_lt_mul_of_pos_right Nat.lt_log2_self (by positivity)

lemma log2Ratio_two_pow (hn : n ≠ 0) (j : Nat) : log2Ratio n (2 ^ j) = n.log2 - j := by
  have hlow := Nat.log2_self_le hn
  have hreached : if (n.log2 : Int) - j < 0 then 2 ^ j ≤ n <<< (-((n.log2 : Int) - j)).toNat
      else 2 ^ j <<< ((n.log2 : Int) - j).toNat ≤ n := by
    split_ifs with hneg <;> rw [Nat.shiftLeft_eq]
    · calc
        2 ^ j = 2 ^ n.log2 * 2 ^ (-((n.log2 : Int) - j)).toNat := by rw [← pow_add]; congr 1; omega
        _ ≤ n * 2 ^ (-((n.log2 : Int) - j)).toNat := Nat.mul_le_mul_right _ hlow
    · calc 2 ^ j * 2 ^ ((n.log2 : Int) - j).toNat = 2 ^ n.log2 := by rw [← pow_add]; congr 1; omega
        _ ≤ n := hlow
  simp only [log2Ratio, Nat.log2_two_pow, if_pos hreached]

lemma roundQuotient_mul (hn : n ≠ 0) (q : Nat) : roundQuotient (q * n) n = q := by
  have hfar : ¬ (0 > n ∨ 0 = n ∧ q % 2 = 1) := by omega
  simp only [roundQuotient, Nat.mul_div_cancel _ (Nat.pos_of_ne_zero hn), Nat.mul_mod_left,
    Nat.mul_zero, if_neg hfar]

/-- Rounding finds a pattern from any mantissa and scale of its value. -/
lemma encode_fields (ht : t < 2 ^ f.exponent - 1) (hr : r < 2 ^ f.fraction)
    (hval : m * 2 ^ (e.toNat + (-scale f t).toNat) =
    mantissa f t r * 2 ^ ((-e).toNat + (scale f t).toNat)) :
    encode f (.finite s m e) = pattern f s t r := by
  have hround : encode f (.finite s m e) = round f s (m * 2 ^ e.toNat) (2 ^ (-e).toNat) := by
    show roundScaled f s m e = _
    unfold roundScaled
    split_ifs with hneg
    · rw [Int.toNat_of_nonpos hneg.le, Nat.one_shiftLeft, pow_zero, mul_one]
    · rw [Int.toNat_of_nonpos (z := -e) (by omega), Nat.shiftLeft_eq, pow_zero]
  have hsum : (scale f t - f.minScale).toNat * 2 ^ f.fraction + mantissa f t r =
      t * 2 ^ f.fraction + r := by
    rcases t with _ | t
    · simp [mantissa, scale]
    · simp only [mantissa, scale, add_sub_cancel_left, Int.toNat_natCast, Nat.add_sub_cancel,
        if_neg t.succ_ne_zero]
      ring
  rw [hround]
  unfold round
  rcases Nat.eq_zero_or_pos (mantissa f t r) with hM | hM
  · obtain ⟨rfl, rfl⟩ : t = 0 ∧ r = 0 := by
      have hpos := Nat.two_pow_pos f.fraction
      unfold mantissa at hM
      split_ifs at hM with h <;> omega
    obtain rfl : m = 0 := by simpa [hM] using hval
    simp [pattern]
  · have hm : m ≠ 0 := by
      rintro rfl
      simp [hM.ne'] at hval
    have hlog : log2Ratio (m * 2 ^ e.toNat) (2 ^ (-e).toNat) =
        (mantissa f t r).log2 + scale f t := by
      have := congrArg Nat.log2 hval
      rw [log2_mul_two_pow hm, log2_mul_two_pow hM.ne'] at this
      rw [log2Ratio_two_pow (by positivity), log2_mul_two_pow hm]
      omega
    have hscale : max f.minScale (log2Ratio (m * 2 ^ e.toNat) (2 ^ (-e).toNat) - f.fraction) =
        scale f t := by
      rw [hlog]
      unfold scale
      rcases t with _ | t
      · have := (Nat.log2_lt hM.ne').2 hr
        omega
      · have hlow : f.fraction ≤ (mantissa f (t + 1) r).log2 :=
          (Nat.le_log2 hM.ne').2 (Nat.le_add_left _ _)
        have hhigh : (mantissa f (t + 1) r).log2 < f.fraction + 1 :=
          (Nat.log2_lt hM.ne').2 (by rw [pow_succ]; exact Nat.add_lt_of_lt_sub (by omega))
        omega
    have hquot : (if scale f t < 0 then roundQuotient ((m * 2 ^ e.toNat) <<< (-scale f t).toNat)
        (2 ^ (-e).toNat)
        else roundQuotient (m * 2 ^ e.toNat) (2 ^ (-e).toNat <<< (scale f t).toNat)) =
        mantissa f t r := by
      rw [pow_add, pow_add, ← mul_assoc] at hval
      split_ifs with hneg
      · rw [Int.toNat_of_nonpos hneg.le, pow_zero, mul_one] at hval
        rw [Nat.shiftLeft_eq, hval, roundQuotient_mul (by positivity)]
      · rw [Int.toNat_of_nonpos (z := -scale f t) (by omega), pow_zero, mul_one] at hval
        rw [Nat.shiftLeft_eq, hval, roundQuotient_mul (by positivity)]
    simp only [if_neg (show m * 2 ^ e.toNat ≠ 0 by positivity), hscale, hquot, Nat.pow_eq, hsum]
    exact congrArg _ (Nat.min_eq_right (fields_lt ht hr).le)

/-! ### Two widths -/

/-- The wider format has the finite numbers of the narrower, with more places. -/
lemma exists_double (ht : t < 255) (hr : r < 2 ^ 23) : ∃ t' r', t' < 2047 ∧ r' < 2 ^ 52 ∧ ∃ j : Nat,
    mantissa double t' r' = mantissa single t r * 2 ^ j ∧
    (mantissa single t r = 0 ∨ scale double t' = scale single t - j) := by
  rcases Nat.eq_zero_or_pos (mantissa single t r) with hm | hm
  · exact ⟨0, 0, by decide, by decide, 0, by rw [hm]; rfl, .inl hm⟩
  · have hlog : (mantissa single t r).log2 < 24 := (Nat.log2_lt hm.ne').2 (by
      show (if t = 0 then r else r + 2 ^ 23) < 2 ^ 24
      split_ifs <;> omega)
    obtain ⟨j, hj⟩ := Nat.exists_eq_add_of_le (show (mantissa single t r).log2 ≤ 52 by omega)
    have hwide := log2_mul_two_pow hm.ne' j
    rw [← hj, Nat.log2_eq_iff (by positivity)] at hwide
    obtain ⟨r', hr'⟩ := Nat.exists_eq_add_of_le' hwide.1
    refine ⟨926 + (t - 1) - j, r', by omega, by omega, j, ?_, .inr ?_⟩
    · rw [mantissa, if_neg (by omega), hr']
      rfl
    · show (-1074 : Int) + (926 + (t - 1) - j - 1 : Nat) = -149 + (t - 1 : Nat) - j
      omega

lemma toNat_single (ht : t < 256) (hr : r < 2 ^ 23) :
    (UInt32.ofNat (pattern single s t r)).toNat = pattern single s t r :=
  UInt32.toNat_ofNat'.trans (Nat.mod_eq_of_lt (pattern_lt (f := single) ht hr))

lemma toNat_double (ht : t < 2048) (hr : r < 2 ^ 52) :
    (UInt64.ofNat (pattern double s t r)).toNat = pattern double s t r :=
  UInt64.toNat_ofNat'.trans (Nat.mod_eq_of_lt (pattern_lt (f := double) ht hr))

lemma widen_eq {bits : UInt32} (h : decode single bits.toNat ≠ .notANumber) :
    widen bits = UInt64.ofNat (encode double (decode single bits.toNat)) := by
  rw [widen]
  split
  · next hnan => exact absurd hnan h
  · rfl

lemma narrow_eq {bits : UInt64} (h : decode double bits.toNat ≠ .notANumber) :
    narrow bits = UInt32.ofNat (encode single (decode double bits.toNat)) := by
  rw [narrow]
  split
  · next hnan => exact absurd hnan h
  · rfl

/-- A number is the same in the wider format and back. -/
lemma narrow_widen {bits : UInt32} (h : decode single bits.toNat ≠ .notANumber) :
    narrow (widen bits) = bits := by
  suffices hback : decode double (widen bits).toNat ≠ .notANumber ∧
      encode single (decode double (widen bits).toNat) = bits.toNat by
    rw [narrow_eq hback.1, hback.2, UInt32.ofNat_toNat]
  rw [widen_eq h]
  obtain ⟨s, t, r, ht, hr, hbits⟩ := exists_fields (f := single) bits.toNat_lt
  rw [hbits] at h ⊢
  rcases Nat.lt_or_ge t 255 with hfin | hinf
  · obtain ⟨t', r', ht', hr', j, hmant, hscale⟩ := exists_double hfin hr
    have hval : mantissa single t r * 2 ^ ((scale single t).toNat + (-scale double t').toNat) =
        mantissa double t' r' * 2 ^ ((-scale single t).toNat + (scale double t').toNat) := by
      rcases hscale with h0 | hscale
      · rw [hmant, h0, Nat.zero_mul, Nat.zero_mul, Nat.zero_mul]
      · rw [hmant, mul_assoc, ← pow_add]
        congr 2
        omega
    rw [decode_finite (f := single) hfin hr, encode_fields (f := double) ht' hr' hval,
      toNat_double (by omega) hr', decode_finite (f := double) ht' hr']
    exact ⟨nofun, encode_fields (f := single) hfin hr (by rw [add_comm, ← hval, add_comm])⟩
  · obtain rfl : t = 255 := Nat.le_antisymm (Nat.le_of_lt_succ ht) hinf
    have hdec : decode single (pattern single s 255 r) =
        if r = 0 then .infinite s else .notANumber :=
      decode_pattern (f := single) ht hr
    obtain rfl : r = 0 := by
      by_contra h0
      exact h (hdec.trans (if_neg h0))
    have hwide : encode double (.infinite s) = pattern double s 2047 0 := rfl
    have hback : decode double (pattern double s 2047 0) = .infinite s :=
      decode_pattern (f := double) (by decide) (by decide)
    rw [hdec, if_pos rfl, hwide, toNat_double (by decide) (by decide), hback]
    exact ⟨nofun, rfl⟩

/-- What is no number stays so. -/
lemma narrow_widen_nan {bits : UInt32} (h : decode single bits.toNat = .notANumber) :
    decode single (narrow (widen bits)).toNat = .notANumber := by
  have hquiet {r : Nat} (hr : r < 2 ^ 23) : r ||| 4194304 < 2 ^ 23 :=
    Nat.or_lt_two_pow hr (by decide)
  have hnan : decode double (widen bits).toNat = .notANumber := by
    have hlt : (bits.toNat % 8388608 ||| 4194304) <<< 29 < 2 ^ 52 := by
      rw [Nat.shiftLeft_eq]
      exact Nat.mul_lt_mul_of_pos_right (hquiet (Nat.mod_lt _ (by decide))) (by decide)
    have hwide : widen bits = UInt64.ofNat (pattern double (bits.toNat ≥ single.signBit) 2047
        ((bits.toNat % 8388608 ||| 4194304) <<< 29)) := by
      rw [widen, h]
      rfl
    rw [hwide, toNat_double (by decide) hlt, decode_pattern (f := double) (by decide) hlt]
    simp [double]
  have hlt : ((widen bits).toNat % 4503599627370496) >>> 29 ||| 4194304 < 2 ^ 23 := by
    refine hquiet ?_
    rw [Nat.shiftRight_eq_div_pow]
    exact Nat.div_lt_of_lt_mul (Nat.mod_lt _ (by decide))
  have hnarrow : narrow (widen bits) =
      UInt32.ofNat (pattern single ((widen bits).toNat ≥ double.signBit) 255
      (((widen bits).toNat % 4503599627370496) >>> 29 ||| 4194304)) := by
    rw [narrow, hnan]
    rfl
  rw [hnarrow, toNat_single (by decide) hlt, decode_pattern (f := single) (by decide) hlt]
  simp [single]

end Classwright.Number
